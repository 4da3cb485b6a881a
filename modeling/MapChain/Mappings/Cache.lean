import MapChain.Digest.Md5
import MapChain.Mappings.Text

/-!
A bounded memory of decoded mappings. The oldest entry leaves when room is needed; being found
again does not make an entry younger. Main statement: a text that cannot be decoded changes
nothing.
-/

set_option autoImplicit false

namespace MapChain

/-- Mappings are kept under the digest of their text. -/
structure DecodeCache where
  capacity : Nat
  entries : List (Md5.Digest × Mappings)
  /-- The digests in the order in which they came in. -/
  order : List Md5.Digest
  hits : Nat
  deriving Repr

namespace DecodeCache

def defaultCapacity : Nat := 256

def empty (capacity : Nat) : DecodeCache := ⟨capacity, [], [], 0⟩

def key (text : String) : Md5.Digest := Md5.digest (Utf8.encode text.toList)

def size (cache : DecodeCache) : Nat := cache.entries.length

def find? (cache : DecodeCache) (text : String) : Option Mappings :=
  cache.entries.lookup (key text)

/-- Drops entries, the oldest first, until one more fits. -/
def makeRoom (capacity : Nat) (entries : List (Md5.Digest × Mappings)) :
    List Md5.Digest → List (Md5.Digest × Mappings) × List Md5.Digest
  | [] => (entries, [])
  | oldest :: order =>
      if capacity ≤ entries.length then makeRoom capacity (entries.filter (·.1 ≠ oldest)) order
      else (entries, oldest :: order)

/-- Makes room for the lines of a text, then adds them. Nothing fits a cache without capacity. -/
def insert (cache : DecodeCache) (text : String) (lines : Mappings) : DecodeCache :=
  if cache.capacity = 0 then cache
  else
    let (entries, order) := makeRoom cache.capacity cache.entries cache.order
    { cache with entries := entries ++ [(key text, lines)], order := order ++ [key text] }

def decode (cache : DecodeCache) (text : String) :
    DecodeCache × Except Mappings.Fault Mappings :=
  match cache.find? text with
  | some lines => ({ cache with hits := cache.hits + 1 }, .ok lines)
  | none =>
      match Mappings.decode text with
      | .ok lines => (cache.insert text lines, .ok lines)
      | .error fault => (cache, .error fault)

theorem make_room_subset (capacity : Nat) (entries : List (Md5.Digest × Mappings))
    (order : List Md5.Digest) : (makeRoom capacity entries order).1 ⊆ entries := by
  induction order generalizing entries with
  | nil => exact List.Subset.refl entries
  | cons oldest order induction =>
      unfold makeRoom
      split
      · exact List.Subset.trans (induction _) List.filter_sublist.subset
      · exact List.Subset.refl entries

theorem decode_failed {cache : DecodeCache} {text : String} {fault : Mappings.Fault}
    (failed : (cache.decode text).2 = .error fault) : (cache.decode text).1 = cache := by
  unfold decode at failed ⊢
  split at failed
  · simp at failed
  · split at failed
    · simp at failed
    · simp_all

end DecodeCache

end MapChain
