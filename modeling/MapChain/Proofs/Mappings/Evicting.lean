import MapChain.Proofs.Mappings.Caching
import Mathlib.Data.List.DropRight
import Mathlib.Data.List.Nodup

/-!
What a bounded memory of decoded mappings holds on to. Where digests tell the texts apart, it is a
queue: a text comes in at the end when it is decoded without being found, and the first one leaves
when there is no room. Main statement: after any calls the texts of the last insertions are held,
as many as there is room for, and hits have no part in which these are.
-/

set_option autoImplicit false

namespace MapChain.DecodeCache

variable {cache : DecodeCache} {text : String} {held came texts : List String}

/-- The texts of the calls that put something in: those that succeed and do not count as a hit. -/
def inserted (cache : DecodeCache) : List String → List String
  | [] => []
  | text :: texts =>
      let (next, answer) := cache.decode text
      if next.hits = cache.hits ∧ answer.isOk then text :: inserted next texts
      else inserted next texts

theorem inserted_cons (cache : DecodeCache) (text : String) (texts : List String) :
    cache.inserted (text :: texts) =
      (if (cache.decode text).1.hits = cache.hits ∧ (cache.decode text).2.isOk then [text]
        else []) ++ (cache.decode text).1.inserted texts := by
  by_cases enters : (cache.decode text).1.hits = cache.hits ∧ (cache.decode text).2.isOk
  · rw [if_pos enters, List.singleton_append]
    exact if_pos enters
  · rw [if_neg enters, List.nil_append]
    exact if_neg enters

theorem Mirrors.inserts_iff (mirrors : cache.Mirrors held)
    (apart : ∀ other ∈ held, key other = key text → other = text) :
    ((cache.decode text).1.hits = cache.hits ∧ (cache.decode text).2.isOk) ↔
      text ∉ held ∧ ∃ lines, Mappings.decode text = .ok lines := by
  obtain ⟨answer, -, -, hits⟩ := mirrors.decode apart
  rw [answer, hits]
  have succeeds : (Mappings.decode text).isOk = true ↔
      ∃ lines, Mappings.decode text = .ok lines := by
    cases Mappings.decode text <;> simp [Except.isOk, Except.toBool]
  rw [succeeds]
  by_cases member : text ∈ held <;> simp [member]

theorem hold_of_not_inserted {capacity : Nat}
    (idle : ¬(text ∉ held ∧ ∃ lines, Mappings.decode text = .ok lines)) :
    hold capacity held text = held := by
  unfold hold
  split
  · rfl
  next fresh =>
    split
    · rfl
    next lines read => exact absurd ⟨fresh, lines, read⟩ idle

theorem hold_latest {capacity : Nat} (fresh : text ∉ came.rtake capacity)
    (read : ∃ lines, Mappings.decode text = .ok lines) :
    hold capacity (came.rtake capacity) text = (came ++ [text]).rtake capacity := by
  obtain ⟨lines, read⟩ := read
  rw [hold, if_neg fresh, read]
  cases capacity with
  | zero => simp
  | succ room =>
      have shorter : (came.rtake (room + 1)).drop
          ((came.rtake (room + 1)).length + 1 - (room + 1)) = came.rtake room := by
        unfold List.rtake
        rw [List.drop_drop, List.length_drop]
        congr 1
        omega
      rw [List.rtake_concat_succ, ← shorter]
      exact if_neg (Nat.succ_ne_zero room)

theorem Mirrors.hold_eq (mirrors : cache.Mirrors (came.rtake cache.capacity))
    (apart : ∀ other ∈ came.rtake cache.capacity, key other = key text → other = text) :
    hold cache.capacity (came.rtake cache.capacity) text =
      (came ++ if (cache.decode text).1.hits = cache.hits ∧ (cache.decode text).2.isOk
        then [text] else []).rtake cache.capacity := by
  by_cases enters : (cache.decode text).1.hits = cache.hits ∧ (cache.decode text).2.isOk
  · obtain ⟨fresh, read⟩ := (mirrors.inserts_iff apart).1 enters
    rw [if_pos enters, hold_latest fresh read]
  · rw [if_neg enters, List.append_nil]
    exact hold_of_not_inserted fun inside => enters ((mirrors.inserts_iff apart).2 inside)

theorem inserted_subset (cache : DecodeCache) (texts : List String) :
    cache.inserted texts ⊆ texts := by
  induction texts generalizing cache with
  | nil => exact List.Subset.refl []
  | cons text texts induction =>
      rw [inserted_cons]
      apply List.append_subset.2
      constructor
      · split <;> simp
      · exact List.Subset.trans (induction _) (List.subset_cons_self text texts)

theorem Mirrors.latest {known : Set String} (apart : Set.InjOn key known)
    (mirrors : cache.Mirrors (came.rtake cache.capacity)) (before : ∀ text ∈ came, text ∈ known)
    (asked : ∀ text ∈ texts, text ∈ known) :
    (cache.decodeAll texts).1.Mirrors
      ((came ++ cache.inserted texts).rtake cache.capacity) := by
  induction texts generalizing cache came with
  | nil =>
      rw [inserted, List.append_nil]
      exact mirrors
  | cons text texts induction =>
      rw [List.forall_mem_cons] at asked
      have told : ∀ other ∈ came.rtake cache.capacity, key other = key text → other = text :=
        fun other member same => apart (before other (List.mem_of_mem_drop member)) asked.1 same
      obtain ⟨-, moved, same, -⟩ := mirrors.decode told
      rw [mirrors.hold_eq told, ← same] at moved
      rw [inserted_cons, ← List.append_assoc, ← same]
      refine induction moved ?_ asked.2
      rw [List.forall_mem_append]
      refine ⟨before, ?_⟩
      intro other member
      split at member
      · rw [List.mem_singleton.1 member]
        exact asked.1
      · cases member

/-- What a cache puts in, another one with the same queue puts in too, without the calls
between. -/
theorem Mirrors.inserted_again {other : DecodeCache} {known : Set String}
    (apart : Set.InjOn key known) (mirrors : cache.Mirrors held) (alike : other.Mirrors held)
    (same : other.capacity = cache.capacity) (before : ∀ text ∈ held, text ∈ known)
    (asked : ∀ text ∈ texts, text ∈ known) :
    other.inserted (cache.inserted texts) = cache.inserted texts := by
  induction texts generalizing cache other held with
  | nil => rfl
  | cons text texts induction =>
      rw [List.forall_mem_cons] at asked
      have told : ∀ first ∈ held, key first = key text → first = text :=
        fun first member equal => apart (before first member) asked.1 equal
      obtain ⟨-, moved, kept, -⟩ := mirrors.decode told
      rw [inserted_cons]
      by_cases enters : text ∉ held ∧ ∃ lines, Mappings.decode text = .ok lines
      · obtain ⟨-, follows, stays, -⟩ := alike.decode told
        rw [same] at follows
        rw [if_pos ((mirrors.inserts_iff told).2 enters), List.singleton_append, inserted_cons,
          if_pos ((alike.inserts_iff told).2 enters), List.singleton_append]
        congr 1
        apply induction moved follows ((stays.trans same).trans kept.symm) _ asked.2
        intro first member
        rcases List.mem_cons.1 (hold_subset cache.capacity held text member) with rfl | early
        · exact asked.1
        · exact before first early
      · rw [hold_of_not_inserted enters] at moved
        rw [if_neg (mt (mirrors.inserts_iff told).1 enters), List.nil_append]
        exact induction moved alike (same.trans kept.symm) before asked.2

theorem Mirrors.listed (mirrors : cache.Mirrors held) :
    cache.order = cache.entries.map (·.1) := by
  rw [mirrors.order, mirrors.entries, List.map_map]
  rfl

theorem Mirrors.find_eq (mirrors : cache.Mirrors held)
    (apart : ∀ other ∈ held, key other = key text → other = text) :
    cache.find? text = if text ∈ held then (Mappings.decode text).toOption else none := by
  split
  next inside =>
    obtain ⟨lines, read, known⟩ := mirrors.find_of_mem inside apart
    rw [known, read]
    rfl
  next outside => exact mirrors.find_of_not_mem outside apart

theorem decode_of_found {lines : Mappings} (known : cache.find? text = some lines) :
    cache.decode text = ({ cache with hits := cache.hits + 1 }, .ok lines) := by
  rw [decode, known]

/-- Where digests tell the texts apart, a cache is a queue of bounded length. After any calls its
order lists the digests of its entries, each once; it holds the lines of the texts that were put in
last, as many as there is room for; and it is as if only these calls had been made, since a hit
changes nothing but the count of hits. -/
theorem last_insertions_are_held (capacity : Nat) (texts : List String)
    (apart : Set.InjOn key {text | text ∈ texts}) :
    let cache := ((empty capacity).decodeAll texts).1
    let came := (empty capacity).inserted texts
    cache.order = cache.entries.map (·.1) ∧ cache.order.Nodup ∧
      cache.size = min capacity came.length ∧ cache.size ≤ capacity ∧
      cache.order = (came.rtake capacity).map key ∧
      (∀ text ∈ texts, cache.find? text =
        if text ∈ came.rtake capacity then (Mappings.decode text).toOption else none) ∧
      (∀ text lines, cache.find? text = some lines →
        cache.decode text = ({ cache with hits := cache.hits + 1 }, .ok lines)) ∧
      ((empty capacity).decodeAll came).1.entries = cache.entries ∧
      ((empty capacity).decodeAll came).1.order = cache.order := by
  intro cache came
  have start : (empty capacity).Mirrors (([] : List String).rtake capacity) := by
    rw [List.rtake_nil]
    exact mirrors_empty capacity
  have mirrors : cache.Mirrors (came.rtake capacity) :=
    start.latest apart (by simp) fun text member => member
  have few : came ⊆ texts := inserted_subset _ _
  have repeated : ((empty capacity).decodeAll came).1.Mirrors (came.rtake capacity) := by
    have again : (empty capacity).inserted came = came :=
      start.inserted_again apart start rfl (by simp) fun text member => member
    have second := start.latest apart (by simp) few
    rwa [List.nil_append, again] at second
  have size : cache.size = min capacity came.length := by
    rw [DecodeCache.size, mirrors.entries, List.length_map, List.rtake, List.length_drop]
    omega
  refine ⟨mirrors.listed, ?_, size, ?_, mirrors.order, ?_, fun _ _ => decode_of_found, ?_, ?_⟩
  · rw [mirrors.order]
    exact mirrors.once
  · rw [size]
    exact Nat.min_le_left _ _
  · intro text member
    exact mirrors.find_eq fun other inside same =>
      apart (few (List.mem_of_mem_drop inside)) member same
  · rw [repeated.entries, mirrors.entries]
  · rw [repeated.order, mirrors.order]

/-- A hit, a text that cannot be decoded, and one that comes in again after it has left. -/
def turningTexts : List String := ["A", "C", "A", "!", "E", "A"]

/-- Room for two: the hit does not keep the first text from leaving next. -/
theorem turning_texts_leave :
    Set.InjOn key {text | text ∈ turningTexts} ∧
      (empty 2).inserted turningTexts = ["A", "C", "E", "A"] ∧
      ((empty 2).decodeAll turningTexts).1.order = ["E", "A"].map key ∧
      ((empty 2).decodeAll turningTexts).1.size = 2 ∧
      ((empty 2).decodeAll turningTexts).1.find? "C" = none ∧
      ((empty 2).decodeAll turningTexts).1.find? "E" = some [[⟨2, none⟩]] := by
  have digests : (["A", "C", "!", "E"].map key).Nodup := by decide +kernel
  have few : turningTexts ⊆ ["A", "C", "!", "E"] := by decide
  have apart : Set.InjOn key {text | text ∈ turningTexts} := fun first member second other same =>
    List.inj_on_of_nodup_map digests (few member) (few other) same
  have came : (empty 2).inserted turningTexts = ["A", "C", "E", "A"] := by decide +kernel
  obtain ⟨-, -, size, -, order, found, -⟩ := last_insertions_are_held 2 turningTexts apart
  rw [came] at size order found
  have read : Mappings.decode "E" = .ok [[⟨2, none⟩]] := by rfl
  refine ⟨apart, came, order, size, found "C" (by decide), ?_⟩
  rw [found "E" (by decide), read]
  rfl

end MapChain.DecodeCache
