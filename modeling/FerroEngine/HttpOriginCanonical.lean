import FerroEngine.HttpOriginSoundness

set_option autoImplicit false

/-! # An origin is read back from its normalised form -/

namespace FerroEngine.HttpOriginCanonical

open DecimalText AddressTextLaws HttpOrigin HttpOriginSoundness
open AddressText hiding parse

/-! ## What an accepted text is -/

theorem isPrefixOf?_inv {p s rest : Text} (found : p.isPrefixOf? s = some rest) : s = p ++ rest := by
  induction p generalizing s with
  | nil =>
    cases found
    rfl
  | cons b p ih =>
    cases s with
    | nil => cases found
    | cons c s =>
      change (if b == c then p.isPrefixOf? s else none) = some rest at found
      split at found
      · rename_i same
        rw [eq_of_beq same, ih found]
        rfl
      · cases found

theorem parseScheme_inv {s rest : Text} {scheme : Scheme}
    (parsed : parseScheme s = some (scheme, rest)) : s = scheme.asStr ++ [58, 47, 47] ++ rest := by
  unfold parseScheme at parsed
  split at parsed
  · rename_i found
    cases parsed
    exact isPrefixOf?_inv found
  · obtain ⟨after, found, same⟩ := Option.map_eq_some_iff.mp parsed
    cases same
    exact isPrefixOf?_inv found

theorem parseScheme_text (scheme : Scheme) (rest : Text) :
    parseScheme (scheme.asStr ++ [58, 47, 47] ++ rest) = some (scheme, rest) := by
  cases scheme <;> rfl

/-- The colon and the text of a port. -/
def portTail : Option Text → Text
  | none => []
  | some p => 58 :: p

/-- A name that is read as itself. -/
def Settled (host : Host) : Prop := ∀ n, host = .name n → parseHostName n = .ok (.name n)

theorem parseHostName_settled {h : Text} {host : Host} (parsed : parseHostName h = .ok host) :
    Settled host := by
  intro n same
  obtain ⟨a, other, _⟩ | ⟨text, _⟩ := parseHostName_inv parsed
  · rw [other] at same
    cases same
  · rw [text] at same
    cases same
    rw [parsed, text]

theorem map_ok {α β : Type} {f : α → β} {e : Except OriginError α} {b : β}
    (mapped : e.map f = .ok b) : ∃ a, e = .ok a ∧ f a = b := by
  cases e with
  | error _ => cases mapped
  | ok a => exact ⟨a, rfl, Except.ok.inj mapped⟩

theorem parseAuthority_inv {rest : Text} {host : Host} {port : Option Text}
    (parsed : parseAuthority rest = .ok (host, port)) :
    ∃ t, rest = t ++ portTail port ∧ HostText host t ∧ Settled host := by
  unfold parseAuthority at parsed
  split at parsed
  · rename_i after
    split at parsed
    · cases parsed
    · rename_i inside tail split_
      split at parsed
      · cases parsed
      · rename_i a read
        obtain ⟨shape, _⟩ := splitOnce_inv split_
        have text : HostText (.v6 a) (91 :: inside ++ [93]) := .v6 (parse_text read)
        have whole : 91 :: after = 91 :: inside ++ [93] ++ tail := by
          rw [shape, List.append_assoc]
          rfl
        split at parsed
        · cases parsed
          exact ⟨_, whole, text, nofun⟩
        · cases parsed
          exact ⟨_, whole, text, nofun⟩
        · cases parsed
  · split at parsed
    · cases parsed
    · split at parsed
      · rename_i h p split_
        obtain ⟨found, read, same⟩ := map_ok parsed
        cases same
        exact ⟨h, (splitOnce_inv split_).1, parseHostName_host read, parseHostName_settled read⟩
      · obtain ⟨found, read, same⟩ := map_ok parsed
        cases same
        exact ⟨rest, (List.append_nil rest).symm, parseHostName_host read,
          parseHostName_settled read⟩

/-- An accepted text is a scheme, a host and a port, and nothing else. -/
theorem parse_inv {s : Text} {o : Origin} (parsed : parse s = .ok o) :
    OriginText s o ∧ ∃ scheme host port, o = build scheme host port ∧ Settled host ∧ 1 ≤ port ∧
      port ≤ 65535 := by
  unfold parse at parsed
  split at parsed
  · cases parsed
  · split at parsed
    · cases parsed
    · split at parsed
      · cases parsed
      · split at parsed
        · cases parsed
        · rename_i scheme rest schemed
          have shape := parseScheme_inv schemed
          split at parsed
          · cases parsed
          · split at parsed
            · cases parsed
            · split at parsed
              · cases parsed
              · split at parsed
                · cases parsed
                · rename_i host read
                  cases parsed
                  obtain ⟨t, whole, text, settled⟩ := parseAuthority_inv read
                  refine ⟨⟨scheme, host, _, t, [], ?_, text, .standard, rfl⟩, scheme, host, _, rfl,
                    settled, ?_⟩
                  · rw [shape, whole]
                    rfl
                  · cases scheme <;> exact ⟨by decide, by decide⟩
                · rename_i host p read
                  obtain ⟨port, number, same⟩ := map_ok parsed
                  cases same
                  obtain ⟨digits, low, high⟩ := parsePort_iff.mp number
                  obtain ⟨t, whole, text, settled⟩ := parseAuthority_inv read
                  refine ⟨⟨scheme, host, port, t, 58 :: p, ?_, text, ?_, rfl⟩, scheme, host, port,
                    rfl, settled, low, high⟩
                  · rw [shape, whole]
                    rfl
                  · rw [digits]
                    exact .written low high

/-! ## The bytes of a normalised origin -/

/-- A byte of a host that is no bracket, or of a port. -/
def isShown (b : UInt8) : Bool := isLabelByte b || b == 46 || b == 58

theorem isShown_toNat {b : UInt8} (shown : isShown b = true) :
    97 ≤ b.toNat ∧ b.toNat ≤ 122 ∨ 45 ≤ b.toNat ∧ b.toNat ≤ 58 ∧ b.toNat ≠ 47 ∨ b.toNat = 95 := by
  simp only [isShown, isLabelByte, isDigit, Bool.or_eq_true, Bool.and_eq_true, decide_eq_true_eq,
    beq_iff_eq] at shown
  obtain (((letter | digit) | hyphen) | underscore) | dot | colon := or_assoc.mp shown
  · exact .inl letter
  · exact .inr (.inl ⟨by omega, by omega, by omega⟩)
  · rw [hyphen]
    exact .inr (.inl (by decide))
  · rw [underscore]
    exact .inr (.inr rfl)
  · rw [dot]
    exact .inr (.inl (by decide))
  · rw [colon]
    exact .inr (.inl (by decide))

theorem isShown_label {b : UInt8} (label : isLabelByte b = true) : isShown b = true := by
  unfold isShown
  rw [label]
  rfl

theorem isLabelByte_digit {b : UInt8} (digit : isDigit b = true) : isLabelByte b = true := by
  unfold isLabelByte
  rw [digit, Bool.or_true]
  rfl

theorem hexByte_label {d : Nat} (small : d < 16) : isLabelByte (hexByte d) = true := by
  have number := hexByte_toNat small
  simp only [isLabelByte, isDigit, number, Bool.or_eq_true, Bool.and_eq_true, decide_eq_true_eq]
  refine .inl (.inl ?_)
  split <;> omega

theorem hexText_label {n : Nat} {b : UInt8} (member : b ∈ hexText n) : isLabelByte b = true := by
  induction n using Nat.strongRecOn with
  | ind n ih =>
    rw [hexText] at member
    split at member
    · rename_i small
      rw [List.mem_singleton.mp member]
      exact hexByte_label small
    · cases List.mem_append.mp member with
      | inl front => exact ih (n / 16) (by omega) front
      | inr last =>
        rw [List.mem_singleton.mp last]
        exact hexByte_label (Nat.mod_lt _ (by omega))

theorem decimal_label {n : Nat} {b : UInt8} (member : b ∈ decimal n) : isLabelByte b = true :=
  isLabelByte_digit ((canonical_decimal n).digits b member)

theorem dotted_bytes {a : Ipv4} {b : UInt8} (member : b ∈ dotted a) :
    b = 46 ∨ isLabelByte b = true := by
  rw [dotted_parts] at member
  obtain dot | ⟨l, listed, inside⟩ := mem_intercalate member
  · exact .inl dot
  · simp only [List.mem_cons, List.not_mem_nil, or_false] at listed
    rcases listed with rfl | rfl | rfl | rfl <;> exact .inr (decimal_label inside)

theorem render_bytes {a : Ipv6} {b : UInt8} (member : b ∈ render a) : isShown b = true := by
  have group {first : Bool} {groups : List UInt16} (inside : b ∈ groupsText first groups) :
      isShown b = true := by
    obtain colon | ⟨n, digit⟩ := groupsText_mem inside
    · rw [colon]
      rfl
    · exact isShown_label (hexText_label digit)
  unfold render at member
  split at member
  · cases List.mem_append.mp member with
    | inl mapped =>
      simp only [List.mem_cons, List.not_mem_nil, or_false] at mapped
      rcases mapped with rfl | rfl | rfl | rfl | rfl | rfl | rfl <;> rfl
    | inr octet =>
      cases dotted_bytes octet with
      | inl dot =>
        rw [dot]
        rfl
      | inr label => exact isShown_label label
  · dsimp only at member
    split at member
    · cases List.mem_append.mp member with
      | inl front =>
        cases List.mem_append.mp front with
        | inl inside => exact group inside
        | inr colons =>
          simp only [List.mem_cons, List.not_mem_nil, or_false, or_self] at colons
          rw [colons]
          rfl
      | inr inside => exact group inside
    · exact group member

theorem name_bytes {n : Text} {b : UInt8} (parsed : parseHostName n = .ok (.name n))
    (member : b ∈ n) : b = 46 ∨ isLabelByte b = true := by
  obtain ⟨a, other, _⟩ | ⟨_, _, _, _, _, labels⟩ := parseHostName_inv parsed
  · cases other
  · have joined : [46].intercalate (n.splitOn 46) = n := List.intercalate_splitOn 46
    rw [← joined] at member
    obtain dot | ⟨l, listed, inside⟩ := mem_intercalate member
    · exact .inl dot
    · exact .inr ((labels l listed).bytes b inside)

/-! ## Reading it back -/

def hostText : Host → Text
  | .name n => n
  | .v4 a => dotted a
  | .v6 a => 91 :: render a ++ [93]

/-- The text of a port, left out where it is the default. -/
def shownPort (scheme : Scheme) (port : Nat) : Option Text :=
  if port = scheme.defaultPort then none else some (decimal port)

theorem build_normalised (scheme : Scheme) (host : Host) (port : Nat) :
    (build scheme host port).normalised =
      scheme.asStr ++ [58, 47, 47] ++ (hostText host ++ portTail (shownPort scheme port)) := by
  unfold build shownPort
  dsimp only
  split
  · rw [portTail, List.append_nil]
    cases host <;> rfl
  · rw [portTail]
    cases host <;> rfl

theorem isShown_ne {b c : UInt8} (shown : isShown b = true) (other : isShown c = false) : b ≠ c := by
  rintro rfl
  exact Bool.false_ne_true (other.symm.trans shown)

theorem isShown_dot_label {b : UInt8} (byte : b = 46 ∨ isLabelByte b = true) :
    isShown b = true ∧ b ≠ 58 := by
  cases byte with
  | inl dot =>
    rw [dot]
    exact ⟨rfl, by decide⟩
  | inr label =>
    refine ⟨isShown_label label, ?_⟩
    rintro rfl
    cases label

theorem portTail_bytes {scheme : Scheme} {port : Nat} {b : UInt8}
    (member : b ∈ portTail (shownPort scheme port)) : isShown b = true := by
  unfold shownPort at member
  split at member
  · cases member
  · cases List.mem_cons.mp member with
    | inl colon =>
      rw [colon]
      rfl
    | inr digit => exact isShown_label (decimal_label digit)

/-- A text before a port that holds neither a bracket nor a colon is a name or an IPv4 address. -/
theorem parseAuthority_plain {h : Text} {host : Host} {port : Option Text}
    (parsed : parseHostName h = .ok host) (bytes : ∀ b ∈ h, isShown b = true ∧ b ≠ 58)
    (tail : ∀ b ∈ portTail port, isShown b = true) :
    parseAuthority (h ++ portTail port) = .ok (host, port) := by
  have all {b : UInt8} (member : b ∈ h ++ portTail port) : isShown b = true := by
    cases List.mem_append.mp member with
    | inl front => exact (bytes b front).1
    | inr back => exact tail b back
  have absent {c : UInt8} (other : isShown c = false) : ¬(h ++ portTail port).contains c = true := by
    intro present
    exact isShown_ne (all (List.contains_iff_mem.mp present)) other rfl
  have colon : 58 ∉ h := fun member => (bytes 58 member).2 rfl
  unfold parseAuthority
  split
  · rename_i after same
    have bracket : (91 : UInt8) ∈ h ++ portTail port := by
      rw [same]
      exact List.mem_cons_self ..
    exact absurd rfl (isShown_ne (all bracket) rfl)
  · rw [if_neg (not_or.mpr ⟨absent rfl, absent rfl⟩)]
    cases port with
    | none =>
      rw [portTail, List.append_nil, splitOnce_none colon]
      dsimp only
      rw [parsed]
      rfl
    | some p =>
      rw [portTail, splitOnce_text colon]
      dsimp only
      rw [parsed]
      rfl

theorem parseAuthority_v6 (a : Ipv6) (port : Option Text) :
    parseAuthority (91 :: render a ++ [93] ++ portTail port) = .ok (.v6 a, port) := by
  have bracket : 93 ∉ render a := fun member => absurd rfl (isShown_ne (render_bytes member) rfl)
  have shape : 91 :: render a ++ [93] ++ portTail port =
      91 :: (render a ++ 93 :: portTail port) := by
    rw [List.append_assoc]
    rfl
  rw [shape]
  unfold parseAuthority
  split
  · rename_i after same
    cases same
    rw [splitOnce_text bracket]
    dsimp only
    rw [parse_render]
    cases port <;> rfl
  · rename_i other
    exact absurd rfl (other _)

theorem parseAuthority_host {host : Host} {port : Option Text} (settled : Settled host)
    (tail : ∀ b ∈ portTail port, isShown b = true) :
    parseAuthority (hostText host ++ portTail port) = .ok (host, port) := by
  cases host with
  | name n =>
    have parsed := settled n rfl
    exact parseAuthority_plain parsed
      (fun b member => isShown_dot_label (name_bytes parsed member)) tail
  | v4 a =>
    exact parseAuthority_plain (parseHostName_dotted a)
      (fun b member => isShown_dot_label (dotted_bytes member)) tail
  | v6 a => exact parseAuthority_v6 a port

theorem hostText_bytes {host : Host} {b : UInt8} (settled : Settled host)
    (member : b ∈ hostText host) : isShown b = true ∨ b = 91 ∨ b = 93 := by
  cases host with
  | name n => exact .inl (isShown_dot_label (name_bytes (settled n rfl) member)).1
  | v4 a => exact .inl (isShown_dot_label (dotted_bytes member)).1
  | v6 a =>
    cases List.mem_append.mp member with
    | inl front =>
      cases List.mem_cons.mp front with
      | inl left => exact .inr (.inl left)
      | inr inside => exact .inl (render_bytes inside)
    | inr right => exact .inr (.inr (List.mem_singleton.mp right))

/-- The bytes of a whole normalised origin. -/
def Clean (b : UInt8) : Prop := isShown b = true ∨ b = 91 ∨ b = 93

theorem Clean.toNat {b : UInt8} (clean : Clean b) :
    97 ≤ b.toNat ∧ b.toNat ≤ 122 ∨ 45 ≤ b.toNat ∧ b.toNat ≤ 58 ∧ b.toNat ≠ 47 ∨ b.toNat = 95 ∨
      b.toNat = 91 ∨ b.toNat = 93 := by
  obtain shown | left | right := clean
  · have range := isShown_toNat shown
    omega
  · rw [left]
    decide
  · rw [right]
    decide

/-- The origin with the port that was written, or the default one. -/
def withPort (scheme : Scheme) (host : Host) : Option Text → Except OriginError Origin
  | none => .ok (build scheme host scheme.defaultPort)
  | some p => (parsePort p).map fun port => build scheme host port

theorem withPort_shown {scheme : Scheme} {host : Host} {port : Nat} (low : 1 ≤ port)
    (high : port ≤ 65535) :
    withPort scheme host (shownPort scheme port) = .ok (build scheme host port) := by
  unfold shownPort
  split
  · rename_i standard
    rw [standard, withPort]
  · rw [withPort, parsePort_iff.mpr ⟨rfl, low, high⟩]
    rfl

/-- The checks on the whole text pass where all its bytes are clean or slashes. -/
theorem parse_clean {s rest : Text} {scheme : Scheme} {host : Host} {port : Option Text}
    (shape : s = scheme.asStr ++ [58, 47, 47] ++ rest) (clean : ∀ b ∈ rest, Clean b)
    (read : parseAuthority rest = .ok (host, port)) :
    HttpOrigin.parse s = withPort scheme host port := by
  have ranges {b : UInt8} (member : b ∈ s) : 45 ≤ b.toNat ∧ b.toNat ≤ 122 ∧
      (b.toNat < 65 ∨ 90 < b.toNat) := by
    rw [shape] at member
    cases List.mem_append.mp member with
    | inl front =>
      cases scheme with
      | http =>
        simp only [Scheme.asStr, List.cons_append, List.nil_append, List.mem_cons, List.not_mem_nil,
          or_false] at front
        rcases front with rfl | rfl | rfl | rfl | rfl | rfl | rfl <;> decide
      | https =>
        simp only [Scheme.asStr, List.cons_append, List.nil_append, List.mem_cons, List.not_mem_nil,
          or_false] at front
        rcases front with rfl | rfl | rfl | rfl | rfl | rfl | rfl | rfl <;> decide
    | inr back =>
      have range := (clean b back).toNat
      omega
  have none {f : UInt8 → Bool} {t : Text} (never : ∀ b ∈ t, ¬f b = true) : ¬t.any f = true := by
    intro found
    obtain ⟨b, member, holds⟩ := List.any_eq_true.mp found
    exact never b member holds
  have absent {c : UInt8} (other : ¬Clean c) : ¬rest.contains c = true := fun present =>
    other (clean c (List.contains_iff_mem.mp present))
  have ascii : ¬(s.any fun c => 128 ≤ c.toNat) = true := none fun b member => by
    have range := ranges member
    rw [decide_eq_true_eq]
    omega
  have control : ¬(s.any fun c => decide (c.toNat ≤ 32) || c == 127) = true :=
    none fun b member => by
      have range := ranges member
      rw [Bool.or_eq_true, decide_eq_true_eq, beq_iff_eq, not_or]
      refine ⟨by omega, ?_⟩
      rintro rfl
      exact absurd range.2.1 (by decide)
  have upper : ¬(s.any fun c => 65 ≤ c.toNat && c.toNat ≤ 90) = true := none fun b member => by
    have range := ranges member
    rw [Bool.and_eq_true, decide_eq_true_eq, decide_eq_true_eq]
    omega
  have path : ¬(rest.any fun c => c == 47 || c == 63 || c == 35 || c == 92) = true :=
    none fun b member => by
      have range := (clean b member).toNat
      simp only [Bool.or_eq_true, beq_iff_eq]
      rintro (((rfl | rfl) | rfl) | rfl) <;> revert range <;> decide
  have schemed : parseScheme s = some (scheme, rest) := by
    rw [shape]
    exact parseScheme_text scheme rest
  unfold HttpOrigin.parse
  rw [if_neg ascii, if_neg control, if_neg upper, schemed]
  dsimp only
  rw [if_neg (absent (by unfold Clean; decide)), if_neg path,
    if_neg (absent (by unfold Clean; decide)), read]
  cases port <;> rfl

/-- A built origin is read back. -/
theorem parse_build {scheme : Scheme} {host : Host} {port : Nat} (settled : Settled host)
    (low : 1 ≤ port) (high : port ≤ 65535) :
    HttpOrigin.parse (build scheme host port).normalised = .ok (build scheme host port) := by
  have read := parseAuthority_host settled fun b => @portTail_bytes scheme port b
  have clean : ∀ b ∈ hostText host ++ portTail (shownPort scheme port), Clean b := by
    intro b member
    cases List.mem_append.mp member with
    | inl front => exact hostText_bytes settled front
    | inr back => exact .inl (portTail_bytes back)
  rw [parse_clean (build_normalised scheme host port) clean read]
  exact withPort_shown low high

/-- Every accepted text is an origin of the grammar, which is read back from its normalised form;
no accepted name could be read as an IPv4 address. -/
theorem parse_canonical {s : Text} {o : Origin} (parsed : HttpOrigin.parse s = .ok o) :
    HttpOrigin.parse o.normalised = .ok o ∧ (∀ n, o.host = .name n → ¬InetAton n) ∧
      OriginText s o := by
  obtain ⟨text, scheme, host, port, shape, settled, low, high⟩ := parse_inv parsed
  refine ⟨?_, fun n named => ?_, text⟩
  · rw [shape]
    exact parse_build settled low high
  · rw [shape] at named
    exact name_not_inetAton (settled n named)

/-- `http://[0:0::1]:8080`. -/
def sample : Text :=
  [104, 116, 116, 112, 58, 47, 47, 91, 48, 58, 48, 58, 58, 49, 93, 58, 56, 48, 56, 48]

theorem parse_canonical_on_sample :
    HttpOrigin.parse (build .http (.v6 ⟨[0, 0, 0, 0, 0, 0, 0, 1], rfl⟩) 8080).normalised =
        .ok (build .http (.v6 ⟨[0, 0, 0, 0, 0, 0, 0, 1], rfl⟩) 8080) ∧
      (∀ n, (build .http (.v6 ⟨[0, 0, 0, 0, 0, 0, 0, 1], rfl⟩) 8080).host = .name n → ¬InetAton n) ∧
      OriginText sample (build .http (.v6 ⟨[0, 0, 0, 0, 0, 0, 0, 1], rfl⟩) 8080) :=
  parse_canonical (by decide +kernel)

end FerroEngine.HttpOriginCanonical
