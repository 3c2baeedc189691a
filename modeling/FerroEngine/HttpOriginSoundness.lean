import FerroEngine.AddressTextLaws
import FerroEngine.HttpOrigin

set_option autoImplicit false

/-! # What an accepted origin is -/

namespace FerroEngine.HttpOriginSoundness

open DecimalText AddressText AddressTextLaws HttpOrigin

/-! ## The grammar -/

/-- Letters, digits, hyphens and underscores, without a hyphen at an edge. -/
structure Label (l : Text) : Prop where
  nonempty : l ≠ []
  length : l.length ≤ 63
  bytes : ∀ c ∈ l, isLabelByte c = true
  front : l.head? ≠ some 45
  back : l.getLast? ≠ some 45

inductive HostText : Host → Text → Prop
  | name {labels : List Text} : labels ≠ [] → (∀ l ∈ labels, Label l) →
      (∀ l, labels.getLast? = some l → isNumericLabel l = false) →
      ([46].intercalate labels).length ≤ 253 →
      HostText (.name ([46].intercalate labels)) ([46].intercalate labels)
  | v4 (a : Ipv4) : HostText (.v4 a) (dotted a)
  | v6 {s : Text} {a : Ipv6} : Ipv6Text s a.groups → HostText (.v6 a) (91 :: s ++ [93])

inductive PortText (scheme : Scheme) : Nat → Text → Prop
  | standard : PortText scheme scheme.defaultPort []
  | written {n : Nat} : 1 ≤ n → n ≤ 65535 → PortText scheme n (58 :: decimal n)

/-- `scheme://host[:port]` and nothing else. -/
def OriginText (s : Text) (o : Origin) : Prop :=
  ∃ scheme host port t p, s = scheme.asStr ++ [58, 47, 47] ++ (t ++ p) ∧ HostText host t ∧
    PortText scheme port p ∧ o = build scheme host port

/-- A number as C writes it: decimal, octal or hexadecimal, of any size. -/
def CNumber (l : Text) : Prop :=
  (l ≠ [] ∧ ∀ c ∈ l, isDigit c = true) ∨
    ∃ x h, l = 48 :: x :: h ∧ (x = 120 ∨ x = 88) ∧ ∀ c ∈ h, isHex c = true

/-- The dotted numbers, of any count, that `inet_aton` may read. -/
def InetAton (n : Text) : Prop := ∀ l ∈ n.splitOn 46, CNumber l

/-! ## Splitting -/

theorem splitOnce_text {c : UInt8} {a b : Text} (absent : c ∉ a) :
    splitOnce c (a ++ c :: b) = some (a, b) := by
  induction a with
  | nil => exact if_pos rfl
  | cons x a ih =>
    rw [List.mem_cons, not_or] at absent
    rw [List.cons_append, splitOnce, if_neg (Ne.symm absent.1), ih absent.2]
    rfl

theorem splitOnce_none {c : UInt8} {s : Text} (absent : c ∉ s) : splitOnce c s = none := by
  induction s with
  | nil => rfl
  | cons x s ih =>
    rw [List.mem_cons, not_or] at absent
    rw [splitOnce, if_neg (Ne.symm absent.1), ih absent.2]
    rfl

theorem splitOnce_inv {c : UInt8} {s a b : Text} (found : splitOnce c s = some (a, b)) :
    s = a ++ c :: b ∧ c ∉ a := by
  induction s generalizing a with
  | nil => cases found
  | cons x s ih =>
    rw [splitOnce] at found
    split at found
    · rename_i same
      cases found
      rw [same]
      exact ⟨rfl, List.not_mem_nil⟩
    · rename_i differ
      obtain ⟨⟨front, back⟩, inner, same⟩ := Option.map_eq_some_iff.mp found
      cases same
      obtain ⟨shape, absent⟩ := ih inner
      rw [shape]
      refine ⟨rfl, fun member => ?_⟩
      cases List.mem_cons.mp member with
      | inl same => exact differ same.symm
      | inr later => exact absent later

theorem mem_intercalate {x b : UInt8} {parts : List Text} (member : b ∈ [x].intercalate parts) :
    b = x ∨ ∃ l ∈ parts, b ∈ l := by
  induction parts with
  | nil => cases member
  | cons l rest ih =>
    cases rest with
    | nil =>
      rw [List.intercalate_singleton] at member
      exact .inr ⟨l, List.mem_cons_self .., member⟩
    | cons m rest =>
      rw [List.intercalate_cons_cons] at member
      cases List.mem_append.mp member with
      | inl front =>
        cases List.mem_append.mp front with
        | inl here => exact .inr ⟨l, List.mem_cons_self .., here⟩
        | inr sep => exact .inl (List.mem_singleton.mp sep)
      | inr later =>
        obtain same | ⟨k, listed, inside⟩ := ih later
        · exact .inl same
        · exact .inr ⟨k, List.mem_cons_of_mem l listed, inside⟩

/-! ## Ports -/

theorem parsePort_iff {p : Text} {n : Nat} :
    parsePort p = .ok n ↔ p = decimal n ∧ 1 ≤ n ∧ n ≤ 65535 := by
  unfold parsePort
  constructor
  · intro parsed
    split at parsed
    · cases parsed
    · rename_i plain
      simp only [not_or, Bool.not_eq_false] at plain
      obtain ⟨some_, _, digits, leading⟩ := plain
      have canonical : Canonical p :=
        ⟨List.all_eq_true.mp digits, some_, fun zero => absurd zero leading⟩
      split at parsed
      · rename_i range
        cases parsed
        exact ⟨(decimal_value canonical).symm, range⟩
      · cases parsed
  · rintro ⟨rfl, low, high⟩
    have canonical := canonical_decimal n
    have short := @decimal_length n 4 (by omega)
    have leading : (decimal n).head? ≠ some 48 := by
      intro zero
      have number := value_decimal n
      rw [canonical.leading zero] at number
      have none : value [48] = 0 := rfl
      omega
    have digits : (decimal n).all isDigit = true := List.all_eq_true.mpr canonical.digits
    rw [if_neg (by simp only [not_or, Bool.not_eq_false]; exact
      ⟨canonical.nonempty, by omega, digits, leading⟩), value_decimal, if_pos ⟨low, high⟩]

/-! ## Host names -/

theorem canonicalOctet_iff {p : Text} {n : UInt8} :
    canonicalOctet p = some n ↔ p = decimal n.toNat := by
  unfold canonicalOctet
  constructor
  · intro parsed
    split at parsed
    · rename_i plain
      obtain ⟨some_, _, digits, leading⟩ := plain
      have canonical : Canonical p := by
        refine ⟨List.all_eq_true.mp digits, some_, fun zero => ?_⟩
        exact leading.elim id fun other => absurd zero other
      split at parsed
      · rename_i small
        cases parsed
        rw [UInt8.toNat_ofNat', Nat.mod_eq_of_lt small, decimal_value canonical]
      · cases parsed
    · cases parsed
  · rintro rfl
    have canonical := canonical_decimal n.toNat
    have small : n.toNat < 256 := n.toNat_lt
    have short := @decimal_length n.toNat 2 (by omega)
    have leading : decimal n.toNat = [48] ∨ (decimal n.toNat).head? ≠ some 48 := by
      by_cases zero : (decimal n.toNat).head? = some 48
      · exact .inl (canonical.leading zero)
      · exact .inr zero
    rw [if_pos ⟨canonical.nonempty, by omega, List.all_eq_true.mpr canonical.digits, leading⟩,
      value_decimal, if_pos small, UInt8.ofNat_toNat]

theorem dotted_parts (a : Ipv4) :
    dotted a = [46].intercalate [decimal a.a.toNat, decimal a.b.toNat, decimal a.c.toNat,
      decimal a.d.toNat] := by
  unfold dotted
  simp only [List.intercalate_cons_cons, List.intercalate_singleton, List.append_assoc,
    List.cons_append, List.nil_append]

theorem decimal_no_dot (n : Nat) : 46 ∉ decimal n := by
  intro dot
  have digit := (digits_decimal n).1 46 dot
  cases digit

theorem splitOn_dotted (a : Ipv4) :
    (dotted a).splitOn 46 = [decimal a.a.toNat, decimal a.b.toNat, decimal a.c.toNat,
      decimal a.d.toNat] := by
  rw [dotted_parts]
  refine List.splitOn_intercalate 46 (fun l member => ?_) (List.cons_ne_nil _ _)
  simp only [List.mem_cons, List.not_mem_nil, or_false] at member
  rcases member with rfl | rfl | rfl | rfl <;> exact decimal_no_dot _

theorem canonicalV4_iff {h : Text} {a : Ipv4} : canonicalV4 h = some a ↔ h = dotted a := by
  constructor
  · intro parsed
    unfold canonicalV4 at parsed
    split at parsed
    · rename_i p q r s parts
      obtain ⟨a, first, parsed⟩ := Option.bind_eq_some_iff.mp parsed
      obtain ⟨b, second, parsed⟩ := Option.bind_eq_some_iff.mp parsed
      obtain ⟨c, third, parsed⟩ := Option.bind_eq_some_iff.mp parsed
      obtain ⟨d, fourth, parsed⟩ := Option.bind_eq_some_iff.mp parsed
      cases parsed
      rw [dotted_parts, ← canonicalOctet_iff.mp first, ← canonicalOctet_iff.mp second,
        ← canonicalOctet_iff.mp third, ← canonicalOctet_iff.mp fourth, ← parts,
        List.intercalate_splitOn]
    · cases parsed
  · rintro rfl
    have octet (n : UInt8) : canonicalOctet (decimal n.toNat) = some n := canonicalOctet_iff.mpr rfl
    unfold canonicalV4
    rw [splitOn_dotted]
    dsimp only
    rw [octet, octet, octet, octet]
    rfl

theorem labelOk_iff {l : Text} : labelOk l = true ↔ Label l := by
  unfold labelOk
  simp only [Bool.and_eq_true, Bool.not_eq_true', List.isEmpty_eq_false_iff, decide_eq_true_eq,
    List.all_eq_true, bne_iff_ne]
  constructor
  · rintro ⟨⟨⟨⟨some_, short⟩, bytes⟩, front⟩, back⟩
    exact ⟨some_, short, bytes, front, back⟩
  · rintro ⟨some_, short, bytes, front, back⟩
    exact ⟨⟨⟨⟨some_, short⟩, bytes⟩, front⟩, back⟩

theorem Label.no_dot {l : Text} (label : Label l) : 46 ∉ l := by
  intro dot
  have byte := label.bytes 46 dot
  cases byte

/-- A host name is read as its text or as an IPv4 address. -/
theorem parseHostName_inv {h : Text} {host : Host} (parsed : parseHostName h = .ok host) :
    (∃ a, host = .v4 a ∧ h = dotted a) ∨
      host = .name h ∧ h ≠ [] ∧ h.getLast? ≠ some 46 ∧ h.length ≤ 253 ∧
        isNumericLabel ((h.splitOn 46).getLast?.getD []) = false ∧
        ∀ l ∈ h.splitOn 46, Label l := by
  unfold parseHostName at parsed
  split at parsed
  · cases parsed
  · rename_i some_
    split at parsed
    · cases parsed
    · rename_i dot
      split at parsed
      · cases parsed
      · rename_i long
        split at parsed
        · split at parsed
          · rename_i a found
            cases parsed
            exact .inl ⟨a, rfl, canonicalV4_iff.mp found⟩
          · cases parsed
        · rename_i named
          split at parsed
          · rename_i labels
            cases parsed
            refine .inr ⟨rfl, some_, dot, by omega, Bool.not_eq_true _ ▸ named, fun l member => ?_⟩
            exact labelOk_iff.mp (List.all_eq_true.mp labels l member)
          · cases parsed

theorem parseHostName_host {h : Text} {host : Host} (parsed : parseHostName h = .ok host) :
    HostText host h := by
  obtain ⟨a, rfl, rfl⟩ | ⟨rfl, _, _, short, named, labels⟩ := parseHostName_inv parsed
  · exact .v4 a
  · have joined : [46].intercalate (h.splitOn 46) = h := List.intercalate_splitOn 46
    have text : HostText (.name ([46].intercalate (h.splitOn 46)))
        ([46].intercalate (h.splitOn 46)) := by
      refine .name (List.splitOn_ne_nil 46 h) labels (fun l last => ?_) (by rw [joined]; exact short)
      rw [last] at named
      exact named
    rw [joined] at text
    exact text

/-- A dotted quad is read back. -/
theorem parseHostName_dotted (a : Ipv4) : parseHostName (dotted a) = .ok (.v4 a) := by
  obtain ⟨front, shape⟩ : ∃ front, dotted a = front ++ decimal a.d.toNat :=
    ⟨decimal a.a.toNat ++ 46 :: decimal a.b.toNat ++ 46 :: decimal a.c.toNat ++ [46], by
      unfold dotted
      simp only [List.append_assoc, List.cons_append, List.nil_append]⟩
  have digits := canonical_decimal a.d.toNat
  have some_ : dotted a ≠ [] := by
    rw [shape]
    exact List.append_ne_nil_of_right_ne_nil front digits.nonempty
  have dot : (dotted a).getLast? ≠ some 46 := by
    intro same
    rw [shape, List.getLast?_append, List.getLast?_eq_some_getLast digits.nonempty] at same
    exact decimal_no_dot _ (Option.some.inj same ▸ List.getLast_mem digits.nonempty)
  have octet (n : UInt8) : (decimal n.toNat).length ≤ 3 :=
    @decimal_length n.toNat 2 (by have small : n.toNat < 256 := n.toNat_lt; omega)
  have short : (dotted a).length ≤ 15 := by
    have lengths := And.intro (octet a.a) (And.intro (octet a.b) (And.intro (octet a.c) (octet a.d)))
    unfold dotted
    simp only [List.length_append, List.length_cons]
    omega
  have numeric : isNumericLabel (decimal a.d.toNat) = true := by
    unfold isNumericLabel
    rw [List.all_eq_true.mpr digits.digits, List.isEmpty_eq_false_iff.mpr digits.nonempty]
    rfl
  unfold parseHostName
  rw [if_neg some_, if_neg dot, if_neg (by omega), splitOn_dotted]
  have last : ([decimal a.a.toNat, decimal a.b.toNat, decimal a.c.toNat,
      decimal a.d.toNat].getLast?.getD []) = decimal a.d.toNat := rfl
  rw [last, if_pos numeric, canonicalV4_iff.mpr rfl]

/-- No name is a dotted sequence of numbers. -/
theorem name_not_inetAton {h n : Text} (parsed : parseHostName h = .ok (.name n)) : ¬InetAton n := by
  intro reads
  obtain ⟨a, same, _⟩ | ⟨same, _, _, _, named, labels⟩ := parseHostName_inv parsed
  · cases same
  · cases same
    cases last : (h.splitOn 46).getLast? with
    | none => exact List.splitOn_ne_nil 46 h (List.getLast?_eq_none_iff.mp last)
    | some l =>
      rw [last] at named
      have listed := List.mem_of_getLast? last
      have label := labels l listed
      obtain ⟨some_, digits⟩ | ⟨x, rest, shape, sign, hex⟩ := reads l listed
      · have numeric : isNumericLabel l = true := by
          unfold isNumericLabel
          rw [List.all_eq_true.mpr digits, List.isEmpty_eq_false_iff.mpr some_]
          rfl
        exact Bool.false_ne_true (named.symm.trans numeric)
      · cases sign with
        | inl lower =>
          have numeric : isNumericLabel l = true := by
            rw [shape, lower]
            exact Bool.or_eq_true _ _ ▸ .inr (List.all_eq_true.mpr hex)
          exact Bool.false_ne_true (named.symm.trans numeric)
        | inr upper =>
          have byte := label.bytes x (by
            rw [shape]
            exact List.mem_cons_of_mem _ (List.mem_cons_self ..))
          rw [upper] at byte
          cases byte

end FerroEngine.HttpOriginSoundness
