import MapChain.Mappings.Cache
import MapChain.Proofs.Mappings.RoundTrip
import Mathlib.Data.Fintype.Pigeonhole
import Mathlib.Data.Finite.Prod

/-!
What a bounded memory of decoded mappings can answer. Main statements: an answer comes from the
text itself or from an entry under its digest, no other entry is ever added, and texts with the
same digest need not have the same lines.
-/

set_option autoImplicit false

namespace MapChain.DecodeCache

variable {cache : DecodeCache} {text : String} {lines : Mappings}

/-- Lines are remembered for the digest of a text, or read from the text itself. -/
theorem of_decode (decoded : (cache.decode text).2 = .ok lines) :
    (key text, lines) ∈ cache.entries ∨ Mappings.decode text = .ok lines := by
  unfold decode at decoded
  cases known : cache.find? text with
  | some remembered =>
      rw [known] at decoded
      cases decoded
      obtain ⟨before, after, whole, -⟩ := List.lookup_eq_some_iff.1 known
      rw [whole]
      exact Or.inl (by simp)
  | none =>
      rw [known] at decoded
      cases read : Mappings.decode text with
      | ok fresh =>
          rw [read] at decoded
          cases decoded
          exact Or.inr rfl
      | error fault =>
          rw [read] at decoded
          cases decoded

theorem of_mem_decode {digest : Md5.Digest}
    (member : (digest, lines) ∈ (cache.decode text).1.entries) :
    (digest, lines) ∈ cache.entries ∨ digest = key text ∧ Mappings.decode text = .ok lines := by
  unfold decode at member
  cases known : cache.find? text with
  | some remembered =>
      rw [known] at member
      exact Or.inl member
  | none =>
      rw [known] at member
      cases read : Mappings.decode text with
      | error fault =>
          rw [read] at member
          exact Or.inl member
      | ok fresh =>
          rw [read] at member
          simp only [insert] at member
          split at member
          · exact Or.inl member
          · rcases List.mem_append.1 member with old | new
            · exact Or.inl (make_room_subset _ _ _ old)
            · rw [List.mem_singleton] at new
              cases new
              exact Or.inr ⟨rfl, rfl⟩

theorem finite_digest : Finite Md5.Digest := by
  have word : Finite UInt32 := by
    apply Finite.of_injective UInt32.toFin
    intro left right same
    exact UInt32.toFin_inj.1 same
  apply Finite.of_injective fun digest : Md5.Digest => (digest.a, digest.b, digest.c, digest.d)
  intro left right same
  cases left
  cases right
  simp only [Prod.mk.injEq] at same
  simp [same]

/-- There are more numbers of empty lines than digests. -/
theorem exists_collision :
    ∃ first second lines other, key first = key second ∧ Mappings.decode first = .ok lines ∧
      Mappings.decode second = .ok other ∧ lines ≠ other := by
  have finite := finite_digest
  obtain ⟨few, many, different, same⟩ := Finite.exists_ne_map_eq_of_infinite fun count : Nat =>
    key (Mappings.encode (List.replicate (count + 1) []))
  have read (count : Nat) :
      Mappings.decode (Mappings.encode (List.replicate (count + 1) [])) =
        .ok (List.replicate (count + 1) []) :=
    Mappings.decode_encode_of_ne_nil (by simp)
  refine ⟨_, _, _, _, same, read few, read many, ?_⟩
  intro equal
  have lengths := congrArg List.length equal
  simp only [List.length_replicate] at lengths
  omega

end MapChain.DecodeCache
