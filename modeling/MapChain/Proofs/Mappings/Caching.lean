import MapChain.Mappings.Cache
import Mathlib.Data.Set.Function

/-!
Texts that are decoded through a bounded memory. Where no two of them have the same digest, the
memory mirrors a queue of texts. Main statements: every call answers what decoding the text itself
gives, and a call counts as a hit exactly where its text is in the queue.
-/

set_option autoImplicit false

namespace MapChain.DecodeCache

variable {cache : DecodeCache} {text : String} {held texts : List String}

def decodeAll (cache : DecodeCache) :
    List String → DecodeCache × List (Except Mappings.Fault Mappings)
  | [] => (cache, [])
  | text :: texts =>
      let (cache, answer) := cache.decode text
      let (cache, answers) := decodeAll cache texts
      (cache, answer :: answers)

/-- The texts that are held after one more has been asked for. One that is new and can be decoded
joins the queue, and the first ones leave it when there is no room. -/
def hold (capacity : Nat) (held : List String) (text : String) : List String :=
  if text ∈ held then held
  else
    match Mappings.decode text with
    | .error _ => held
    | .ok _ => if capacity = 0 then held else held.drop (held.length + 1 - capacity) ++ [text]

def found (capacity : Nat) (held : List String) : List String → Nat
  | [] => 0
  | text :: texts =>
      (if text ∈ held then 1 else 0) + found capacity (hold capacity held text) texts

def entryOf (text : String) : Md5.Digest × Mappings :=
  (key text, (Mappings.decode text).toOption.getD [])

theorem entry_of_decoded {lines : Mappings} (read : Mappings.decode text = .ok lines) :
    entryOf text = (key text, lines) := by
  rw [entryOf, read]
  rfl

/-- The cache holds the lines of these texts, in this order. -/
structure Mirrors (cache : DecodeCache) (held : List String) : Prop where
  entries : cache.entries = held.map entryOf
  order : cache.order = held.map key
  once : (held.map key).Nodup
  decoded : ∀ text ∈ held, ∃ lines, Mappings.decode text = .ok lines

theorem mirrors_empty (capacity : Nat) : (empty capacity).Mirrors [] where
  entries := rfl
  order := rfl
  once := List.nodup_nil
  decoded := by simp

theorem make_room_of_once (capacity : Nat) (once : (held.map key).Nodup) :
    makeRoom capacity (held.map entryOf) (held.map key) =
      ((held.drop (held.length + 1 - capacity)).map entryOf,
        (held.drop (held.length + 1 - capacity)).map key) := by
  induction held with
  | nil => simp [makeRoom]
  | cons oldest held induction =>
      rw [List.map_cons, List.nodup_cons] at once
      obtain ⟨gone, once⟩ := once
      have dropped : ((oldest :: held).map entryOf).filter (·.1 ≠ key oldest) =
          held.map entryOf := by
        rw [List.map_cons, List.filter_cons_of_neg (by simp [entryOf]), List.filter_eq_self]
        intro entry member
        obtain ⟨other, inside, rfl⟩ := List.mem_map.1 member
        have apart : key other ≠ key oldest := by
          intro same
          rw [← same] at gone
          exact gone (List.mem_map_of_mem inside)
        simp [entryOf, apart]
      rw [List.map_cons (f := key), makeRoom, dropped, List.length_map]
      by_cases full : capacity ≤ (oldest :: held).length
      · rw [if_pos full, induction once]
        have more : (oldest :: held).length + 1 - capacity = held.length + 1 - capacity + 1 := by
          rw [List.length_cons] at full ⊢
          omega
        rw [more, List.drop_succ_cons]
      · rw [if_neg full]
        have roomy : (oldest :: held).length + 1 - capacity = 0 := by omega
        rw [roomy, List.drop_zero, List.map_cons, List.map_cons]

theorem lookup_entry_of (apart : ∀ other ∈ held, key other = key text → other = text) :
    (held.map entryOf).lookup (key text) = if text ∈ held then some (entryOf text).2 else none := by
  induction held with
  | nil => rfl
  | cons first held induction =>
      rw [List.forall_mem_cons] at apart
      rw [List.map_cons, List.lookup_cons]
      by_cases same : first = text
      · rw [same, entryOf, beq_self_eq_true, if_pos List.mem_cons_self]
      · have unlike : (key text == (entryOf first).1) = false :=
          beq_eq_false_iff_ne.2 fun equal => same (apart.1 equal.symm)
        rw [unlike, induction apart.2]
        simp [Ne.symm same]

theorem Mirrors.find_of_mem (mirrors : cache.Mirrors held) (member : text ∈ held)
    (apart : ∀ other ∈ held, key other = key text → other = text) :
    ∃ lines, Mappings.decode text = .ok lines ∧ cache.find? text = some lines := by
  obtain ⟨lines, read⟩ := mirrors.decoded text member
  refine ⟨lines, read, ?_⟩
  rw [find?, mirrors.entries, lookup_entry_of apart, if_pos member, entry_of_decoded read]

theorem Mirrors.find_of_not_mem (mirrors : cache.Mirrors held) (fresh : text ∉ held)
    (apart : ∀ other ∈ held, key other = key text → other = text) : cache.find? text = none := by
  rw [find?, mirrors.entries, lookup_entry_of apart, if_neg fresh]

theorem Mirrors.insert {lines : Mappings} (mirrors : cache.Mirrors held)
    (read : Mappings.decode text = .ok lines) (fresh : key text ∉ held.map key)
    (roomy : cache.capacity ≠ 0) :
    (cache.insert text lines).Mirrors
      (held.drop (held.length + 1 - cache.capacity) ++ [text]) := by
  have kept : held.drop (held.length + 1 - cache.capacity) ⊆ held := List.drop_subset _ _
  have inserted : cache.insert text lines =
      { cache with
        entries := (held.drop (held.length + 1 - cache.capacity)).map entryOf ++ [(key text, lines)]
        order := (held.drop (held.length + 1 - cache.capacity)).map key ++ [key text] } := by
    rw [DecodeCache.insert, if_neg roomy, mirrors.entries, mirrors.order,
      make_room_of_once cache.capacity mirrors.once]
  rw [inserted]
  refine ⟨?_, ?_, ?_, ?_⟩
  · rw [List.map_append, List.map_singleton, entry_of_decoded read]
  · rw [List.map_append, List.map_singleton]
  · rw [List.map_append, List.map_singleton, List.nodup_append]
    refine ⟨mirrors.once.sublist ((List.drop_sublist _ _).map key), by simp, ?_⟩
    intro digest before last after same
    rw [List.mem_singleton] at after
    rw [same, after] at before
    exact fresh ((List.drop_sublist _ _).map key |>.subset before)
  · intro other member
    rcases List.mem_append.1 member with early | late
    · exact mirrors.decoded other (kept early)
    · rw [List.mem_singleton.1 late]
      exact ⟨lines, read⟩

/-- One call, where the digests tell the texts apart: it answers what the text itself says, the
queue moves on, and a text that is held is a hit. -/
theorem Mirrors.decode (mirrors : cache.Mirrors held)
    (apart : ∀ other ∈ held, key other = key text → other = text) :
    (cache.decode text).2 = Mappings.decode text ∧
      (cache.decode text).1.Mirrors (hold cache.capacity held text) ∧
      (cache.decode text).1.capacity = cache.capacity ∧
      (cache.decode text).1.hits = cache.hits + if text ∈ held then 1 else 0 := by
  by_cases member : text ∈ held
  · obtain ⟨lines, read, known⟩ := mirrors.find_of_mem member apart
    rw [hold, if_pos member, if_pos member, DecodeCache.decode, known, read]
    exact ⟨rfl, ⟨mirrors.entries, mirrors.order, mirrors.once, mirrors.decoded⟩, rfl, rfl⟩
  · have unknown := mirrors.find_of_not_mem member apart
    rw [hold, if_neg member, if_neg member, DecodeCache.decode, unknown]
    cases read : Mappings.decode text with
    | error fault => exact ⟨rfl, mirrors, rfl, rfl⟩
    | ok lines =>
        by_cases empty : cache.capacity = 0
        · have unchanged : cache.insert text lines = cache := by
            rw [DecodeCache.insert, if_pos empty]
          simp only [if_pos empty, unchanged]
          exact ⟨trivial, mirrors, trivial, rfl⟩
        · have fresh : key text ∉ held.map key := by
            intro known
            obtain ⟨other, inside, same⟩ := List.mem_map.1 known
            rw [apart other inside same] at inside
            exact member inside
          have kept : (cache.insert text lines).capacity = cache.capacity ∧
              (cache.insert text lines).hits = cache.hits := by
            rw [DecodeCache.insert, if_neg empty]
            exact ⟨rfl, rfl⟩
          simp only [if_neg empty]
          exact ⟨trivial, mirrors.insert read fresh empty, kept.1, kept.2⟩

theorem hold_subset (capacity : Nat) (held : List String) (text : String) :
    hold capacity held text ⊆ text :: held := by
  unfold hold
  split
  · exact List.subset_cons_self text held
  · split
    · exact List.subset_cons_self text held
    · split
      · exact List.subset_cons_self text held
      · apply List.append_subset.2
        exact ⟨List.Subset.trans (List.drop_subset _ _) (List.subset_cons_self text held),
          by simp⟩

theorem Mirrors.decode_all {known : Set String} (apart : Set.InjOn key known)
    (mirrors : cache.Mirrors held) (before : ∀ text ∈ held, text ∈ known)
    (asked : ∀ text ∈ texts, text ∈ known) :
    (cache.decodeAll texts).2 = texts.map Mappings.decode ∧
      (cache.decodeAll texts).1.Mirrors (texts.foldl (hold cache.capacity) held) ∧
      (cache.decodeAll texts).1.hits = cache.hits + found cache.capacity held texts := by
  induction texts generalizing cache held with
  | nil => exact ⟨rfl, mirrors, rfl⟩
  | cons text texts induction =>
      rw [List.forall_mem_cons] at asked
      obtain ⟨answer, still, same, hits⟩ := mirrors.decode fun other inside equal =>
        apart (before other inside) asked.1 equal
      have inside : ∀ other ∈ hold cache.capacity held text, other ∈ known := by
        intro other member
        rcases List.mem_cons.1 (hold_subset cache.capacity held text member) with rfl | early
        · exact asked.1
        · exact before other early
      obtain ⟨answers, last, more⟩ := induction still inside asked.2
      rw [same] at last more
      refine ⟨?_, last, ?_⟩
      · rw [decodeAll, List.map_cons, ← answer, ← answers]
      · rw [decodeAll, found, ← Nat.add_assoc, ← hits]
        exact more

end MapChain.DecodeCache
