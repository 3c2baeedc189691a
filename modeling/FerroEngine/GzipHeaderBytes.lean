import Mathlib.Data.List.TakeDrop
import FerroEngine.GzipHeader

set_option autoImplicit false

/-! # Gzip member headers byte by byte

The header read byte by byte without a limit is what a header is. A turn of the loop of `advance`
takes several bytes of it at once.
-/

namespace FerroEngine.GzipHeaderBytes

open GzipHeader

variable {C : Checksum}

/-! ## Byte by byte -/

/-- Reads single bytes, without a limit, until the header is done. -/
def scan (h : GzHeader C) : List UInt8 → Except DecodeError (GzHeader C)
  | [] => .ok h
  | c :: bs =>
    if h.stage = .done then .ok h
    else
      match h.bite c [] with
      | .error e => .error e
      | .ok (h', _) => scan h' bs

/-- An `FEXTRA` in progress has bytes left, and the first two stages have a fixed length. -/
structure Sound (h : GzHeader C) : Prop where
  extra : h.stage = .extra → 0 < h.extraLeft
  fixed : h.stage = .fixed → h.len = h.got ∧ h.got < 10
  xLen : h.stage = .xLen → h.len = 10 + h.got ∧ h.got < 2

theorem scan_done {h : GzHeader C} (done : h.stage = .done) (bs : List UInt8) :
    scan h bs = .ok h := by
  cases bs with
  | nil => rfl
  | cons c bs => rw [scan, if_pos done]

theorem scan_cons {h h' : GzHeader C} {c : UInt8} {n : Nat} (bs : List UInt8)
    (unfinished : h.stage ≠ .done) (bitten : h.bite c [] = .ok (h', n)) :
    scan h (c :: bs) = scan h' bs := by
  rw [scan, if_neg unfinished, bitten]

theorem scan_append {h g : GzHeader C} {as : List UInt8} (bs : List UInt8)
    (scanned : scan h as = .ok g) : scan h (as ++ bs) = scan g bs := by
  induction as generalizing h with
  | nil =>
    cases scanned
    rfl
  | cons c as ih =>
    by_cases done : h.stage = .done
    · rw [scan_done done] at scanned ⊢
      cases scanned
      rw [scan_done done]
    · rw [List.cons_append, scan, if_neg done]
      rw [scan, if_neg done] at scanned
      cases bitten : h.bite c [] with
      | error e =>
        rw [bitten] at scanned
        cases scanned
      | ok p =>
        rw [bitten] at scanned
        exact ih scanned

theorem scan_append_error {h : GzHeader C} {as : List UInt8} {e : DecodeError}
    (bs : List UInt8) (scanned : scan h as = .error e) : scan h (as ++ bs) = .error e := by
  induction as generalizing h with
  | nil => cases scanned
  | cons c as ih =>
    rw [List.cons_append, scan]
    rw [scan] at scanned
    split at scanned
    · cases scanned
    · rename_i unfinished
      rw [if_neg unfinished]
      cases bitten : h.bite c [] with
      | error e' =>
        rw [bitten] at scanned
        exact scanned
      | ok p =>
        rw [bitten] at scanned
        exact ih scanned

/-! ## Bites -/

theorem eat_eat (h : GzHeader C) (a b : List UInt8) : (h.eat a).eat b = h.eat (a ++ b) := by
  rw [GzHeader.eat, GzHeader.eat, GzHeader.eat, C.update_append, List.length_append,
    Nat.add_assoc]

theorem eat_nil (h : GzHeader C) : h.eat [] = h := by
  rw [GzHeader.eat, C.update_nil]
  rfl

theorem eatExtra_of_lt {h : GzHeader C} {b : List UInt8} (left : b.length < h.extraLeft) :
    h.eatExtra b = { h.eat b with extraLeft := h.extraLeft - b.length } := by
  rw [GzHeader.eatExtra]
  dsimp only
  rw [if_neg (by omega)]

theorem eatExtra_append {h : GzHeader C} {a : List UInt8} (left : a.length < h.extraLeft)
    (b : List UInt8) : (h.eatExtra a).eatExtra b = h.eatExtra (a ++ b) := by
  rw [eatExtra_of_lt left, GzHeader.eatExtra, GzHeader.eatExtra, ← eat_eat,
    List.length_append, ← Nat.sub_sub]
  rfl

theorem eatExtra_len (h : GzHeader C) (b : List UInt8) :
    (h.eatExtra b).len = h.len + b.length := by
  rw [GzHeader.eatExtra]
  dsimp only
  split <;> rfl

theorem bite_extra {h : GzHeader C} (stage : h.stage = .extra) (c : UInt8) (rest : List UInt8) :
    h.bite c rest = .ok (h.eatExtra ((c :: rest).take (min h.extraLeft (rest.length + 1))),
      min h.extraLeft (rest.length + 1)) := by
  rw [GzHeader.bite, stage]

theorem byte_extra {h : GzHeader C} (stage : h.stage = .extra) (left : 0 < h.extraLeft)
    (c : UInt8) : h.bite c [] = .ok (h.eatExtra [c], 1) := by
  have one : min h.extraLeft 1 = 1 := by omega
  rw [bite_extra stage, List.length_nil, Nat.zero_add, one]
  rfl

theorem scan_extra {h : GzHeader C} (stage : h.stage = .extra) (left : 0 < h.extraLeft)
    {bs : List UInt8} (fits : bs.length ≤ h.extraLeft) : scan h bs = .ok (h.eatExtra bs) := by
  induction bs generalizing h with
  | nil =>
    rw [eatExtra_of_lt (b := []) left, eat_nil]
    rfl
  | cons c bs ih =>
    rw [List.length_cons] at fits
    rw [scan_cons bs (by rw [stage]; nofun) (byte_extra stage left c)]
    by_cases last : bs = []
    · rw [last]
      rfl
    · have more : 0 < bs.length := List.length_pos_iff.mpr last
      have less : [c].length < h.extraLeft := by
        rw [List.length_singleton]
        omega
      have next := eatExtra_of_lt less
      rw [List.length_singleton] at next
      have left' : (h.eatExtra [c]).extraLeft = h.extraLeft - 1 :=
        congrArg GzHeader.extraLeft next
      have same := eatExtra_append less bs
      rw [List.singleton_append] at same
      rw [← same]
      apply ih
      · exact (congrArg GzHeader.stage next).trans stage
      · omega
      · omega

/-- The two stages that end with a NUL. -/
def IsText (s : HdrStage) : Prop :=
  s = .name ∨ s = .comment

theorem bite_text {h : GzHeader C} (text : IsText h.stage) (c : UInt8) (rest : List UInt8) :
    h.bite c rest =
      match (c :: rest).findIdx? (· == 0) with
      | some z => .ok (h.eatText ((c :: rest).take (z + 1)), z + 1)
      | none => .ok (h.eat (c :: rest), rest.length + 1) := by
  cases h
  dsimp only at text
  rcases text with rfl | rfl <;> rfl

theorem not_done_of_text {s : HdrStage} (text : IsText s) : s ≠ .done := by
  rcases text with rfl | rfl <;> nofun

theorem scan_text {h : GzHeader C} (text : IsText h.stage) {bs : List UInt8}
    (plain : ∀ c ∈ bs, c ≠ 0) : scan h bs = .ok (h.eat bs) := by
  induction bs generalizing h with
  | nil =>
    rw [eat_nil]
    rfl
  | cons c bs ih =>
    have other := plain c (.head bs)
    have bitten : h.bite c [] = .ok (h.eat [c], 1) := by
      rw [bite_text text, List.findIdx?_singleton, if_neg (by simpa using other)]
      rfl
    rw [scan_cons bs (not_done_of_text text) bitten]
    have same := eat_eat h [c] bs
    rw [List.singleton_append] at same
    rw [← same]
    exact ih text fun d member => plain d (.tail c member)

theorem scan_textEnd {h : GzHeader C} (text : IsText h.stage) {bs : List UInt8}
    (plain : ∀ c ∈ bs, c ≠ 0) : scan h (bs ++ [0]) = .ok (h.eatText (bs ++ [0])) := by
  have stage : (h.eat bs).stage = h.stage := rfl
  have text' : IsText (h.eat bs).stage := text
  have bitten : (h.eat bs).bite 0 [] = .ok ((h.eat bs).eatText [0], 1) := by
    rw [bite_text text']
    rfl
  rw [scan_append [0] (scan_text text plain), scan_cons [] (not_done_of_text text') bitten]
  rw [GzHeader.eatText, eat_eat]
  rfl

/-- What a turn of the loop takes, against the same bytes one by one. -/
structure Bitten (h : GzHeader C) (b : List UInt8) (h' : GzHeader C) (n : Nat) : Prop where
  pos : 0 < n
  le : n ≤ b.length
  sound : Sound h'
  len : h'.len = h.len + n
  scans : scan h (b.take n) = .ok h'
  same : ∀ j < n, ∃ g, scan h (b.take j) = .ok g ∧ g.stage = h.stage
  ranks : rank h.stage ≤ rank h'.stage
  single : h.stage = .hcrc → n = 1
  greedy : h.stage = .extra ∨ IsText h.stage → n = b.length ∨ h'.stage ≠ h.stage

theorem sound_of_rank {h : GzHeader C} (late : 2 < rank h.stage) : Sound h := by
  have other : ∀ s, rank s ≤ 2 → h.stage ≠ s := by
    intro s early same
    rw [same] at late
    omega
  refine ⟨?_, ?_, ?_⟩
  · exact fun stage => absurd stage (other .extra (by decide))
  · exact fun stage => absurd stage (other .fixed (by decide))
  · exact fun stage => absurd stage (other .xLen (by decide))

theorem take_lt_one {α : Type} {b : List α} {j : Nat} (less : j < 1) : b.take j = [] := by
  have zero : j = 0 := by omega
  rw [zero, List.take_zero]

theorem bitten_extra {h : GzHeader C} (sound : Sound h) (stage : h.stage = .extra) (c : UInt8)
    (rest : List UInt8) : Bitten h (c :: rest)
      (h.eatExtra ((c :: rest).take (min h.extraLeft (rest.length + 1))))
      (min h.extraLeft (rest.length + 1)) := by
  have left := sound.extra stage
  have size : ((c :: rest).take (min h.extraLeft (rest.length + 1))).length =
      min h.extraLeft (rest.length + 1) := by
    rw [List.length_take, List.length_cons]
    omega
  have scans : ∀ j ≤ min h.extraLeft (rest.length + 1),
      scan h ((c :: rest).take j) = .ok (h.eatExtra ((c :: rest).take j)) := by
    intro j less
    apply scan_extra stage left
    rw [List.length_take, List.length_cons]
    omega
  have stay : ∀ b : List UInt8, b.length < h.extraLeft → (h.eatExtra b).stage = .extra := by
    intro b less
    exact (congrArg GzHeader.stage (eatExtra_of_lt less)).trans stage
  have leave : ∀ b : List UInt8, b.length = h.extraLeft →
      rank .extra < rank (h.eatExtra b).stage := by
    intro b full
    rw [GzHeader.eatExtra]
    dsimp only
    rw [if_pos (by omega)]
    refine GzHeader.rank_after h ⟨?_, ?_, ?_⟩
    all_goals
      intro same
      cases same
  generalize taken : min h.extraLeft (rest.length + 1) = n at size scans ⊢
  have fits : n ≤ h.extraLeft ∧ n ≤ rest.length + 1 := by omega
  refine ⟨by omega, fits.2, ?_, ?_, scans n (Nat.le_refl n), ?_, ?_, ?_, ?_⟩
  · by_cases less : n < h.extraLeft
    · have next := eatExtra_of_lt (h := h) (b := (c :: rest).take n) (by omega)
      refine ⟨?_, ?_, ?_⟩
      · intro _
        rw [next]
        dsimp only
        omega
      · intro other
        rw [stay _ (by omega)] at other
        cases other
      · intro other
        rw [stay _ (by omega)] at other
        cases other
    · exact sound_of_rank (leave _ (by omega))
  · rw [eatExtra_len, size]
  · intro j less
    refine ⟨_, scans j (by omega), ?_⟩
    rw [stage]
    apply stay
    rw [List.length_take, List.length_cons]
    omega
  · rw [stage]
    by_cases less : n < h.extraLeft
    · exact Nat.le_of_eq (congrArg rank (stay _ (by omega)).symm)
    · exact Nat.le_of_lt (leave _ (by omega))
  · intro other
    rw [stage] at other
    cases other
  · intro _
    rw [List.length_cons]
    by_cases all : n = rest.length + 1
    · exact .inl all
    · right
      intro same
      have later := leave ((c :: rest).take n) (by omega)
      rw [same, stage] at later
      omega

theorem rank_text {s : HdrStage} (text : IsText s) : 2 < rank s := by
  rcases text with rfl | rfl <;> decide

theorem eat_stage (h : GzHeader C) (b : List UInt8) : (h.eat b).stage = h.stage := rfl

theorem rank_textEnd {h : GzHeader C} (text : IsText h.stage) (b : List UInt8) :
    rank h.stage < rank (h.eatText b).stage := by
  have later := GzHeader.rank_after h (s := h.stage)
    (by rcases text with stage | stage <;> rw [stage] <;> exact ⟨nofun, nofun, nofun⟩)
  exact later

theorem bitten_text {h h' : GzHeader C} {c : UInt8} {rest : List UInt8} {n : Nat}
    (text : IsText h.stage) (bitten : h.bite c rest = .ok (h', n)) :
    Bitten h (c :: rest) h' n := by
  have noHcrc : h.stage ≠ .hcrc := by
    rcases text with stage | stage <;> rw [stage] <;> nofun
  rw [bite_text text] at bitten
  split at bitten
  · rename_i z found
    cases bitten
    rw [List.findIdx?_eq_some_iff_getElem] at found
    obtain ⟨inside, nul, before⟩ := found
    have plain : ∀ d ∈ (c :: rest).take z, d ≠ 0 := by
      intro d member
      obtain ⟨k, less, rfl⟩ := List.mem_take_iff_getElem.mp member
      have other := before k (by omega)
      simpa using other
    have last : (c :: rest).take (z + 1) = (c :: rest).take z ++ [0] := by
      rw [← List.take_append_getElem inside, beq_iff_eq.mp nul]
    refine ⟨Nat.succ_pos z, inside, ?_, ?_, ?_, ?_, ?_, fun stage => absurd stage noHcrc, ?_⟩
    · apply sound_of_rank
      exact Nat.lt_trans (rank_text text) (rank_textEnd text _)
    · rw [GzHeader.eatText, GzHeader.eat]
      dsimp only
      rw [List.length_take]
      omega
    · rw [last]
      exact scan_textEnd text plain
    · intro j less
      refine ⟨_, @scan_text _ h text ((c :: rest).take j) ?_, rfl⟩
      intro d member
      apply plain
      exact (List.take_subset_take_left _ (by omega)) member
    · exact Nat.le_of_lt (rank_textEnd text _)
    · intro _
      right
      intro same
      have later := rank_textEnd text ((c :: rest).take (z + 1))
      rw [same] at later
      omega
  · rename_i none
    cases bitten
    have plain : ∀ d ∈ c :: rest, d ≠ 0 := by
      intro d member
      have other := List.findIdx?_eq_none_iff.mp none d member
      simpa using other
    refine ⟨Nat.succ_pos _, Nat.le_refl _, sound_of_rank (rank_text text), rfl, ?_, ?_,
      Nat.le_refl _, fun stage => absurd stage noHcrc, fun _ => .inl rfl⟩
    · have all : (c :: rest).take (rest.length + 1) = c :: rest :=
        List.take_of_length_le (Nat.le_refl _)
      rw [all]
      exact scan_text text plain
    · intro j _
      exact ⟨_, scan_text text fun d member => plain d (List.mem_of_mem_take member), rfl⟩

/-- The stages that take one byte at a time. -/
def IsSingle (s : HdrStage) : Prop :=
  s = .fixed ∨ s = .xLen ∨ s = .hcrc

theorem bite_single {h : GzHeader C} (single : IsSingle h.stage) (c : UInt8)
    (rest : List UInt8) : h.bite c rest = h.bite c [] := by
  rcases single with stage | stage | stage
  · rw [GzHeader.bite, GzHeader.bite, stage]
  · rw [GzHeader.bite, GzHeader.bite, stage]
  · rw [GzHeader.bite, GzHeader.bite, stage]

/-- What a byte does to the state of a stage that takes one. -/
structure Eaten (h h' : GzHeader C) : Prop where
  sound : Sound h'
  len : h'.len = h.len + 1
  ranks : rank h.stage ≤ rank h'.stage

theorem after_fixed (h : GzHeader C) : h.after .fixed ≠ .fixed ∧ h.after .fixed ≠ .extra := by
  have later := GzHeader.rank_after h (s := .fixed) ⟨nofun, nofun, nofun⟩
  constructor
  · intro same
    rw [same] at later
    omega
  · intro same
    rcases GzHeader.after_mem h .fixed with done | member
    · rw [done] at same
      cases same
    · rw [same] at member
      revert member
      decide

theorem eaten_fixed {h : GzHeader C} (sound : Sound h) (stage : h.stage = .fixed) (c : UInt8) :
    Eaten h (h.eatFixed c) := by
  obtain ⟨len, short⟩ := sound.fixed stage
  generalize flagged : (if h.got = 3 then { h with flg := c } else h) = f
  have stage' : f.stage = .fixed := by
    rw [← flagged]
    split <;> exact stage
  have len' : f.len = h.len := by
    rw [← flagged]
    split <;> rfl
  rw [GzHeader.eatFixed]
  dsimp only
  rw [flagged]
  split
  · rename_i last
    have next := after_fixed { f.eat [c] with got := h.got + 1 }
    refine ⟨⟨?_, ?_, ?_⟩, ?_, ?_⟩
    · exact fun extra => absurd extra next.2
    · exact fun fixed => absurd fixed next.1
    · intro _
      dsimp only [GzHeader.eat, List.length_singleton]
      omega
    · dsimp only [GzHeader.eat, List.length_singleton]
      omega
    · rw [stage]
      exact Nat.zero_le _
  · rename_i more
    refine ⟨⟨?_, ?_, ?_⟩, ?_, ?_⟩
    · intro extra
      exact absurd (stage'.symm.trans extra) nofun
    · intro _
      dsimp only [GzHeader.eat, List.length_singleton]
      omega
    · intro xLen
      exact absurd (stage'.symm.trans xLen) nofun
    · dsimp only [GzHeader.eat, List.length_singleton]
      omega
    · rw [stage]
      exact Nat.zero_le _

theorem eaten_xLen {h : GzHeader C} (sound : Sound h) (stage : h.stage = .xLen) (c : UInt8) :
    Eaten h (h.eatXLen c) := by
  obtain ⟨len, short⟩ := sound.xLen stage
  rw [GzHeader.eatXLen]
  dsimp only
  generalize value : ({ (h.setTwo c).eat [c] with got := h.got + 1 } : GzHeader C).twoValue = v
  split
  · by_cases zero : v = 0
    · have later := GzHeader.rank_after { (h.setTwo c).eat [c] with got := h.got + 1 } (s := .extra)
        ⟨nofun, nofun, nofun⟩
      have late : 2 < rank (({ (h.setTwo c).eat [c] with got := h.got + 1 } :
        GzHeader C).after .extra) := later
      rw [if_pos zero]
      refine ⟨sound_of_rank late, rfl, ?_⟩
      rw [stage]
      exact Nat.le_of_lt (Nat.lt_trans (by decide) late)
    · rw [if_neg zero]
      refine ⟨⟨?_, nofun, nofun⟩, rfl, ?_⟩
      · intro _
        exact Nat.pos_of_ne_zero zero
      · rw [stage]
        dsimp only
        decide
  · rename_i more
    refine ⟨⟨?_, ?_, ?_⟩, rfl, Nat.le_refl _⟩
    · exact fun extra => absurd (stage.symm.trans extra) nofun
    · exact fun fixed => absurd (stage.symm.trans fixed) nofun
    · intro _
      dsimp only [GzHeader.eat, GzHeader.setTwo, List.length_singleton]
      omega

theorem eaten_hcrc {h h' : GzHeader C} (stage : h.stage = .hcrc) {c : UInt8}
    (eaten : h.eatHcrc c = .ok h') : Eaten h h' := by
  rw [GzHeader.eatHcrc] at eaten
  dsimp only at eaten
  split at eaten
  · split at eaten
    · cases eaten
      refine ⟨sound_of_rank (by dsimp only; decide), rfl, ?_⟩
      rw [stage]
      dsimp only
      decide
    · cases eaten
  · cases eaten
    have same : ({ h.setTwo c with
        len := h.len + 1
        got := h.got + 1 } : GzHeader C).stage = .hcrc := stage
    refine ⟨sound_of_rank ?_, rfl, Nat.le_refl _⟩
    rw [same]
    decide

theorem byte_single {h h' : GzHeader C} {c : UInt8} {n : Nat} (sound : Sound h)
    (single : IsSingle h.stage) (bitten : h.bite c [] = .ok (h', n)) : n = 1 ∧ Eaten h h' := by
  rcases single with stage | stage | stage
  · rw [GzHeader.bite, stage] at bitten
    dsimp only at bitten
    split at bitten
    · cases bitten
    · cases bitten
      exact ⟨rfl, eaten_fixed sound stage c⟩
  · rw [GzHeader.bite, stage] at bitten
    cases bitten
    exact ⟨rfl, eaten_xLen sound stage c⟩
  · rw [GzHeader.bite, stage] at bitten
    dsimp only at bitten
    cases eaten : h.eatHcrc c with
    | error e =>
      rw [eaten] at bitten
      cases bitten
    | ok next =>
      rw [eaten] at bitten
      cases bitten
      exact ⟨rfl, eaten_hcrc stage eaten⟩

theorem stage_cases (s : HdrStage) : s = .done ∨ IsSingle s ∨ s = .extra ∨ IsText s := by
  cases s with
  | fixed => exact .inr (.inl (.inl rfl))
  | xLen => exact .inr (.inl (.inr (.inl rfl)))
  | extra => exact .inr (.inr (.inl rfl))
  | name => exact .inr (.inr (.inr (.inl rfl)))
  | comment => exact .inr (.inr (.inr (.inr rfl)))
  | hcrc => exact .inr (.inl (.inr (.inr rfl)))
  | done => exact .inl rfl

theorem bite_bitten {h h' : GzHeader C} {c : UInt8} {rest : List UInt8} {n : Nat}
    (sound : Sound h) (unfinished : h.stage ≠ .done) (bitten : h.bite c rest = .ok (h', n)) :
    Bitten h (c :: rest) h' n := by
  rcases stage_cases h.stage with done | single | extra | text
  · exact absurd done unfinished
  · rw [bite_single single] at bitten
    obtain ⟨one, eaten⟩ := byte_single sound single bitten
    subst one
    refine ⟨Nat.one_pos, Nat.succ_pos _, eaten.sound, eaten.len, ?_, ?_, eaten.ranks,
      fun _ => rfl, ?_⟩
    · have first : (c :: rest).take 1 = [c] := rfl
      rw [first, scan_cons [] unfinished bitten]
      rfl
    · intro j less
      exact ⟨h, by rw [take_lt_one less]; rfl, rfl⟩
    · rintro (stage | text)
      · rcases single with other | other | other <;> rw [other] at stage <;> cases stage
      · rcases single with other | other | other <;> rw [other] at text <;>
          rcases text with text | text <;> cases text
  · rw [bite_extra extra] at bitten
    cases bitten
    exact bitten_extra sound extra c rest
  · exact bitten_text text bitten

/-- What stops a bite stops the first byte of it. -/
theorem bite_error {h : GzHeader C} {c : UInt8} {rest : List UInt8} {e : DecodeError}
    (unfinished : h.stage ≠ .done) (bitten : h.bite c rest = .error e) :
    h.bite c [] = .error e ∧ e = .header := by
  rcases stage_cases h.stage with done | single | extra | text
  · exact absurd done unfinished
  · rw [bite_single single] at bitten
    refine ⟨bitten, ?_⟩
    rcases single with stage | stage | stage
    · rw [GzHeader.bite, stage] at bitten
      dsimp only at bitten
      split at bitten
      · cases bitten
        rfl
      · cases bitten
    · rw [GzHeader.bite, stage] at bitten
      cases bitten
    · rw [GzHeader.bite, stage, GzHeader.eatHcrc] at bitten
      dsimp only at bitten
      split at bitten
      · split at bitten
        · cases bitten
        · cases bitten
          rfl
      · cases bitten
  · rw [bite_extra extra] at bitten
    cases bitten
  · rw [bite_text text] at bitten
    split at bitten <;> cases bitten

/-! ## What reading bytes keeps -/

/-- The bytes read since `h`, none of them after the end of the header. -/
structure Reads (h g : GzHeader C) (count : Nat) : Prop where
  sound : Sound g
  len : h.len ≤ g.len ∧ g.len ≤ h.len + count
  unfinished : g.stage ≠ .done → g.len = h.len + count
  finished : h.stage ≠ .done → g.stage = .done → h.len < g.len
  ranks : rank h.stage ≤ rank g.stage

theorem scan_reads {h g : GzHeader C} {bs : List UInt8} (sound : Sound h)
    (scanned : scan h bs = .ok g) : Reads h g bs.length := by
  induction bs generalizing h with
  | nil =>
    cases scanned
    exact ⟨sound, ⟨Nat.le_refl _, Nat.le_refl _⟩, fun _ => rfl,
      fun unfinished finished => absurd finished unfinished, Nat.le_refl _⟩
  | cons c bs ih =>
    by_cases done : h.stage = .done
    · rw [scan_done done] at scanned
      cases scanned
      exact ⟨sound, ⟨Nat.le_refl _, Nat.le_add_right ..⟩, fun other => absurd done other,
        fun other => absurd done other, Nat.le_refl _⟩
    · cases bitten : h.bite c [] with
      | error e =>
        rw [scan, if_neg done, bitten] at scanned
        cases scanned
      | ok p =>
        obtain ⟨h', n⟩ := p
        have byte := bite_bitten sound done bitten
        have one : n = 1 := by
          have le := byte.le
          have pos := byte.pos
          rw [List.length_singleton] at le
          omega
        subst one
        rw [scan_cons bs done bitten] at scanned
        have rest := ih byte.sound scanned
        have len := byte.len
        have bounds := rest.len
        rw [List.length_cons]
        refine ⟨rest.sound, by omega, ?_, ?_, Nat.le_trans byte.ranks rest.ranks⟩
        · intro unfinished
          have exact_len := rest.unfinished unfinished
          omega
        · intro _ _
          omega

theorem scan_error {h : GzHeader C} {bs : List UInt8} {e : DecodeError}
    (scanned : scan h bs = .error e) : e = .header := by
  induction bs generalizing h with
  | nil => cases scanned
  | cons c bs ih =>
    rw [scan] at scanned
    split at scanned
    · cases scanned
    · rename_i unfinished
      split at scanned
      · rename_i e' bitten
        cases scanned
        exact (bite_error unfinished bitten).2
      · exact ih scanned

end FerroEngine.GzipHeaderBytes
