import FerroEngine.MemoQueue
import FerroEngine.PlaceholderScanner

set_option autoImplicit false

/-! # The placeholder cache of `ferro-backend-pg`

`PlaceholderCache` remembers the rewrite of the texts it was asked for last, first in first out.
-/

namespace FerroEngine.PlaceholderMemo

open SourceText MemoQueue

structure PlaceholderCache where
  cap : Nat
  map : Std.HashMap Text Text
  order : List Text

/-- A cache holds one text at least. -/
def new (cap : Nat) : PlaceholderCache where
  cap := max cap 1
  map := ∅
  order := []

/-- The answer and the cache after it. -/
def getOrInsert (self : PlaceholderCache) (sql : Text) : Text × PlaceholderCache :=
  match self.map[sql]? with
  | some hit => (hit, self)
  | none =>
    let normalized := PlaceholderScanner.scan sql
    let kept := evict self.cap (self.map.insert sql normalized) (self.order ++ [sql])
    (normalized, { cap := self.cap, map := kept.1, order := kept.2 })

def len (self : PlaceholderCache) : Nat :=
  self.map.size

/-- The answers to a sequence of lookups, and the cache after them. -/
def lookups : PlaceholderCache → List Text → List Text × PlaceholderCache
  | self, [] => ([], self)
  | self, sql :: later =>
    let first := getOrInsert self sql
    let others := lookups first.2 later
    (first.1 :: others.1, others.2)

/-- The queue lists the keys of the map, which are not too many, and every entry is a rewrite. -/
structure Sound (cache : PlaceholderCache) : Prop where
  keyed : Keyed cache.map cache.order
  bounded : cache.order.length ≤ cache.cap
  memoises : Memoises PlaceholderScanner.scan cache.map

theorem Sound.new (cap : Nat) : Sound (new cap) where
  keyed := Keyed.empty
  bounded := Nat.zero_le _
  memoises := Memoises.empty _

theorem Sound.getOrInsert {cache : PlaceholderCache} (sound : Sound cache) (sql : Text) :
    Sound (getOrInsert cache sql).2 ∧ (getOrInsert cache sql).2.cap = cache.cap ∧
      (getOrInsert cache sql).1 = PlaceholderScanner.scan sql := by
  unfold PlaceholderMemo.getOrInsert
  cases found : cache.map[sql]? with
  | some hit => exact ⟨sound, rfl, sound.memoises sql hit found⟩
  | none =>
    have absent : sql ∉ cache.map := by
      rw [Std.HashMap.mem_iff_isSome_getElem?, found]
      exact Bool.false_ne_true
    refine ⟨⟨?_, evict_length _ _ _, ?_⟩, rfl, rfl⟩
    · exact (sound.keyed.push absent _).evict cache.cap
    · exact (sound.memoises.insert sql).evict cache.cap _

theorem Sound.lookups (queries : List Text) {cache : PlaceholderCache} (sound : Sound cache) :
    Sound (lookups cache queries).2 ∧ (lookups cache queries).2.cap = cache.cap ∧
      (lookups cache queries).1 = queries.map PlaceholderScanner.scan := by
  induction queries generalizing cache with
  | nil => exact ⟨sound, rfl, rfl⟩
  | cons sql later ih =>
    obtain ⟨sound', cap, answer⟩ := sound.getOrInsert sql
    obtain ⟨final, cap', answers⟩ := ih sound'
    refine ⟨final, cap'.trans cap, ?_⟩
    rw [PlaceholderMemo.lookups, List.map_cons, answer, answers]

/-- After any lookups the queue lists the keys without repetition, the size is within the capacity,
one at least, and the answers are those of `scan`. -/
theorem lookups_sound (cap : Nat) (queries : List Text) :
    (lookups (new cap) queries).1 = queries.map PlaceholderScanner.scan ∧
      (lookups (new cap) queries).2.order.Nodup ∧
      (∀ key, key ∈ (lookups (new cap) queries).2.map ↔
        key ∈ (lookups (new cap) queries).2.order) ∧
      len (lookups (new cap) queries).2 ≤ max cap 1 := by
  obtain ⟨sound, same, answers⟩ := (Sound.new cap).lookups queries
  refine ⟨answers, sound.keyed.nodup, sound.keyed.keys, ?_⟩
  calc len (lookups (new cap) queries).2
      = (lookups (new cap) queries).2.order.length := sound.keyed.size
    _ ≤ (lookups (new cap) queries).2.cap := sound.bounded
    _ = max cap 1 := same

/-- A cache made with capacity 0 holds a text after its first lookup. -/
theorem new_zero_exceeds : ¬len (lookups (new 0) [['?']]).2 ≤ 0 := by
  have kept : (lookups (new 0) [['?']]).2.map =
      (∅ : Std.HashMap Text Text).insert ['?'] (PlaceholderScanner.scan ['?']) := by
    simp [lookups, getOrInsert, new, evict]
  rw [len, kept, Std.HashMap.size_insert, if_neg Std.HashMap.not_mem_empty,
    Std.HashMap.size_empty]
  decide

end FerroEngine.PlaceholderMemo
