import FerroEngine.HttpRequests

set_option autoImplicit false

/-! # Which headers are sent -/

namespace FerroEngine.HttpHeaderPolicy

open SourceText HttpSyntax HttpTarget HttpHeaders HttpRequests

/-! ## One header -/

/-- A header of the engine's own is not sent, apart from `TE: trailers`; of the others all but the
attached ones are. -/
def isSent (up : HeaderPolicy) (h : Header) : Bool :=
  if isReservedAttachName (foldName h.name) then
    foldName h.name == "te".toList && eqIgnoreAsciiCase h.value (bytesOf "trailers")
  else !attachedNames up.attached (foldName h.name)

theorem isOneOf_all {p : Text → Bool} {names : List String}
    (all : ∀ name ∈ names, p name.toList = true) {lower : Text}
    (found : isOneOf names lower = true) : p lower = true := by
  obtain ⟨name, member, same⟩ := List.any_eq_true.mp found
  rw [← beq_iff_eq.mp same]
  exact all name member

/-- What a header that passed the tables leaves of the plan. -/
structure Passed (up : HeaderPolicy) (i : Nat) (h : Header) (plan plan' : HeaderPlan) : Prop where
  keep : plan'.keep = plan.keep ++ if isSent up h then [i] else []
  saw : plan'.sawAcceptEncoding =
    (plan.sawAcceptEncoding || (isSent up h && foldName h.name == "accept-encoding".toList))
  exempt : isExemptible (foldName h.name) = true → up.passHeaders.contains (foldName h.name) = true

/-- The names that are dropped whatever their values. -/
def isDropped (lower : Text) : Bool :=
  isReservedAttachName lower && lower != "te".toList && !isExemptible lower

theorem isSent_of_isDropped (up : HeaderPolicy) {h : Header}
    (dropped : isDropped (foldName h.name) = true) :
    isSent up h = false ∧ isExemptible (foldName h.name) = false := by
  unfold isDropped at dropped
  rw [Bool.and_eq_true, Bool.and_eq_true, Bool.not_eq_true', bne_iff_ne] at dropped
  obtain ⟨⟨reserved, notTe⟩, ordinary⟩ := dropped
  refine ⟨?_, ordinary⟩
  unfold isSent
  rw [if_pos reserved, beq_eq_false_iff_ne.mpr notTe, Bool.false_and]

theorem passed_dropped {up : HeaderPolicy} {i : Nat} {h : Header} {plan : HeaderPlan}
    (dropped : isDropped (foldName h.name) = true) : Passed up i h plan plan := by
  obtain ⟨unsent, ordinary⟩ := isSent_of_isDropped up dropped
  refine ⟨?_, ?_, ?_⟩
  · rw [unsent]
    exact (List.append_nil _).symm
  · rw [unsent, Bool.false_and, Bool.or_false]
  · rw [ordinary]
    intro exempt
    cases exempt

/-- `TE` is sent with `trailers` only. -/
theorem passed_te {up : HeaderPolicy} {i : Nat} {h : Header} {plan plan' : HeaderPlan}
    (te : foldName h.name = "te".toList)
    (keep : plan'.keep = plan.keep ++
      if eqIgnoreAsciiCase h.value (bytesOf "trailers") then [i] else [])
    (saw : plan'.sawAcceptEncoding = plan.sawAcceptEncoding) : Passed up i h plan plan' := by
  have sent : isSent up h = eqIgnoreAsciiCase h.value (bytesOf "trailers") := by
    unfold isSent
    rw [te]
    exact Bool.true_and _
  refine ⟨?_, ?_, ?_⟩
  · rw [sent]
    exact keep
  · rw [te, saw]
    simp
  · rw [te]
    intro exempt
    cases exempt

/-- An ordinary header. -/
theorem passed_ordinary {up : HeaderPolicy} {i : Nat} {h : Header} {plan plan' : HeaderPlan}
    (unreserved : isReservedAttachName (foldName h.name) = false)
    (keep : plan'.keep = plan.keep ++
      if attachedNames up.attached (foldName h.name) then [] else [i])
    (saw : plan'.sawAcceptEncoding = (plan.sawAcceptEncoding ||
      (!attachedNames up.attached (foldName h.name) &&
        foldName h.name == "accept-encoding".toList)))
    (exempt : isExemptible (foldName h.name) = true →
      up.passHeaders.contains (foldName h.name) = true) : Passed up i h plan plan' := by
  have sent : isSent up h = !attachedNames up.attached (foldName h.name) := by
    unfold isSent
    rw [unreserved]
    rfl
  refine ⟨?_, ?_, exempt⟩
  · rw [keep, sent]
    cases attachedNames up.attached (foldName h.name) with
    | true => rfl
    | false => rfl
  · rw [saw, sent]

theorem unreserved_of_tables {lower : Text} (host : lower ≠ "host".toList)
    (length : lower ≠ "content-length".toList) (coding : lower ≠ "transfer-encoding".toList)
    (hop : isOneOf ["connection", "keep-alive", "proxy-connection", "http2-settings", "expect"]
      lower = false) (te : lower ≠ "te".toList)
    (refused : isOneOf ["upgrade", "proxy-authorization"] lower = false) :
    isReservedAttachName lower = false := by
  rw [Bool.eq_false_iff]
  intro reserved
  obtain ⟨name, member, same⟩ := List.any_eq_true.mp reserved
  rw [beq_iff_eq] at same
  rw [← same] at host length coding hop te refused
  simp only [List.mem_cons, List.not_mem_nil, or_false] at member
  rcases member with m | m | m | m | m | m | m | m | m | m | m
  all_goals rw [m] at host length coding hop te refused
  · exact host rfl
  · exact length rfl
  · exact coding rfl
  · cases hop
  · cases hop
  · cases hop
  · exact te rfl
  · cases hop
  · cases hop
  · cases refused
  · cases refused

theorem applyTables_passed {up : HeaderPolicy} {bodyLen i : Nat} {h : Header}
    {plan plan' : HeaderPlan} (ok : applyTables up bodyLen i h plan = .ok plan') :
    Passed up i h plan plan' := by
  unfold applyTables at ok
  simp only at ok
  have exempt : ¬(isOverrideHeader (foldName h.name) &&
      !up.passHeaders.contains (foldName h.name)) = true →
      ¬(isForwardingHeader (foldName h.name) && !up.passHeaders.contains (foldName h.name)) = true →
      isExemptible (foldName h.name) = true →
      up.passHeaders.contains (foldName h.name) = true := by
    intro override forwarding either
    unfold isExemptible at either
    cases listed : up.passHeaders.contains (foldName h.name) with
    | true => rfl
    | false =>
      rw [listed, Bool.not_false, Bool.and_true] at override forwarding
      rw [Bool.or_eq_true] at either
      exact absurd either (by rw [not_or]; exact ⟨override, forwarding⟩)
  split_ifs at ok with host host' length length' coding coding' hop te trailers refused override
    forwarding attached accept
  · cases ok
    exact passed_dropped (by rw [host]; rfl)
  · cases ok
    exact passed_dropped (by rw [length]; rfl)
  · cases ok
    exact passed_dropped (by rw [coding]; rfl)
  · cases ok
    exact passed_dropped (isOneOf_all (by decide) hop)
  · cases ok
    refine passed_te te ?_ rfl
    rw [if_pos trailers]
    rfl
  · cases ok
    refine passed_te te ?_ rfl
    rw [if_neg trailers, List.append_nil]
  all_goals
    have unreserved := unreserved_of_tables host length coding (Bool.eq_false_iff.mpr hop) te
      (Bool.eq_false_iff.mpr refused)
  · cases policy : up.attachPolicy with
    | refuse =>
      rw [policy] at ok
      cases ok
    | override =>
      rw [policy] at ok
      cases ok
      refine passed_ordinary unreserved ?_ ?_ (exempt override forwarding)
      · rw [if_pos attached, List.append_nil]
      · rw [attached, Bool.not_true, Bool.false_and, Bool.or_false]
  · cases ok
    refine passed_ordinary unreserved ?_ ?_ (exempt override forwarding)
    · rw [if_neg attached]
      rfl
    · rw [Bool.eq_false_iff.mpr attached, accept, beq_self_eq_true]
      exact (Bool.or_true _).symm
  · cases ok
    refine passed_ordinary unreserved ?_ ?_ (exempt override forwarding)
    · rw [if_neg attached]
      rfl
    · rw [Bool.eq_false_iff.mpr attached, beq_eq_false_iff_ne.mpr accept]
      exact (Bool.or_false _).symm

/-! ## All headers -/

/-- The headers that are sent, by their indices, the first of which is `i`. -/
def sentIndices (up : HeaderPolicy) : Nat → List Header → List Nat
  | _, [] => []
  | i, h :: rest => (if isSent up h then [i] else []) ++ sentIndices up (i + 1) rest

structure AllPassed (up : HeaderPolicy) (i : Nat) (headers : List Header)
    (plan plan' : HeaderPlan) : Prop where
  keep : plan'.keep = plan.keep ++ sentIndices up i headers
  saw : plan'.sawAcceptEncoding = (plan.sawAcceptEncoding ||
    headers.any fun h => isSent up h && foldName h.name == "accept-encoding".toList)
  exempt : ∀ h ∈ headers, isExemptible (foldName h.name) = true →
    up.passHeaders.contains (foldName h.name) = true

theorem checkHeader_passed {up : HeaderPolicy} {bodyLen i : Nat} {h : Header}
    {plan plan' : HeaderPlan} (ok : checkHeader up bodyLen i h plan = .ok plan') :
    Passed up i h plan plan' := by
  unfold checkHeader at ok
  split_ifs at ok
  exact applyTables_passed ok

theorem checkHeaderLoop_passed {up : HeaderPolicy} {bodyLen i : Nat} {headers : List Header}
    {plan plan' : HeaderPlan} (ok : checkHeaderLoop up bodyLen i headers plan = .ok plan') :
    AllPassed up i headers plan plan' := by
  induction headers generalizing i plan with
  | nil =>
    cases ok
    refine ⟨(List.append_nil _).symm, (Bool.or_false _).symm, ?_⟩
    intro h member
    cases member
  | cons h rest ih =>
    unfold checkHeaderLoop at ok
    split at ok
    · cases ok
    · next middle first =>
      have passed := checkHeader_passed first
      have later := ih ok
      refine ⟨?_, ?_, ?_⟩
      · rw [later.keep, passed.keep, List.append_assoc]
        rfl
      · rw [later.saw, passed.saw, Bool.or_assoc, List.any_cons]
      · intro q member
        rcases List.mem_cons.mp member with same | inside
        · rw [same]
          exact passed.exempt
        · exact later.exempt q inside

/-- The indices name the sent headers, in their order. -/
theorem sentHeaders_indices (up : HeaderPolicy) (before headers : List Header) :
    sentHeaders (before ++ headers) (sentIndices up before.length headers) =
      headers.filter (isSent up) := by
  induction headers generalizing before with
  | nil => rfl
  | cons h rest ih =>
    have later := ih (before ++ [h])
    rw [List.append_assoc, List.singleton_append, List.length_append, List.length_singleton] at later
    unfold sentHeaders at later ⊢
    rw [sentIndices, List.filterMap_append, later, List.filter_cons]
    cases isSent up h with
    | true =>
      simp only [if_true, List.filterMap_cons, List.filterMap_nil]
      rw [List.getElem?_append_right (Nat.le_refl _), Nat.sub_self]
      rfl
    | false => rfl

theorem attachedNames_unreserved (up : HeaderPolicy) {lower : Text}
    (attached : attachedNames up.attached lower = true) : isReservedAttachName lower = false := by
  obtain ⟨a, member, same⟩ := List.any_eq_true.mp attached
  rw [← beq_iff_eq.mp same]
  exact up.unreserved a member

theorem unattached_of_isSent {up : HeaderPolicy} {h : Header} (sent : isSent up h = true) :
    attachedNames up.attached (foldName h.name) = false := by
  rw [Bool.eq_false_iff]
  intro attached
  unfold isSent at sent
  rw [attachedNames_unreserved up attached, attached] at sent
  cases sent

/-! ## The idempotency key -/

theorem lowercase_byte (b : UInt8) :
    isAsciiAlphanumeric (toAsciiLowercase b) = isAsciiAlphanumeric b ∧
      toAsciiLowercase (toAsciiLowercase b) = toAsciiLowercase b := by
  have all : ∀ n : Fin 256,
      isAsciiAlphanumeric (toAsciiLowercase (UInt8.ofNat n)) = isAsciiAlphanumeric (UInt8.ofNat n) ∧
        toAsciiLowercase (toAsciiLowercase (UInt8.ofNat n)) = toAsciiLowercase (UInt8.ofNat n) := by
    decide +kernel
  have at' := all ⟨b.toNat, b.toNat_lt⟩
  simpa using at'

theorem foldName_lowercase (name : Bytes) : foldName (name.map toAsciiLowercase) = foldName name := by
  unfold foldName
  rw [List.map_map]
  apply List.map_congr_left
  intro b _
  simp only [Function.comp_apply, lowercase_byte]

theorem foldName_of_eqIgnoreAsciiCase {a b : Bytes} (same : eqIgnoreAsciiCase a b = true) :
    foldName a = foldName b := by
  rw [← foldName_lowercase a, ← foldName_lowercase b, beq_iff_eq.mp same]

/-- The key that licenses a retry leaves the host. -/
theorem isSent_of_carriesKey {up : HeaderPolicy} {h : Header} (carries : carriesKey up h = true) :
    isSent up h = true := by
  unfold carriesKey at carries
  split at carries
  · cases carries
  · next key _ =>
    have fold := foldName_of_eqIgnoreAsciiCase (Bool.and_eq_true_iff.mp carries).1
    unfold isSent
    rw [fold, key.unreserved, key.unattached]
    rfl

/-! ## Accepted requests -/

theorem checkHeaders_passed {up : HeaderPolicy} {headers : List Header} {bodyLen : Nat}
    {plan : HeaderPlan} (ok : checkHeaders up headers bodyLen = .ok plan) :
    sentHeaders headers plan.keep = headers.filter (isSent up) ∧
      (∀ h ∈ headers, isSent up h = true → foldName h.name = "accept-encoding".toList →
        plan.sawAcceptEncoding = true) ∧
      ∀ h ∈ headers, isExemptible (foldName h.name) = true →
        up.passHeaders.contains (foldName h.name) = true := by
  unfold checkHeaders at ok
  by_cases lines : maxHeaderLines < headers.length
  · rw [if_pos lines] at ok
    cases ok
  rw [if_neg lines] at ok
  by_cases bytes : maxHeaderBytes < headerBytes headers
  · rw [if_pos bytes] at ok
    cases ok
  rw [if_neg bytes] at ok
  cases looped : checkHeaderLoop up bodyLen 0 headers
      { keep := [], overridden := 0, sawAcceptEncoding := false } with
  | error e =>
    rw [looped] at ok
    cases ok
  | ok middle =>
    rw [looped] at ok
    have passed := checkHeaderLoop_passed looped
    have keep : plan.keep = middle.keep := by
      cases ok
      split_ifs
      · rfl
      · rfl
    have saw : middle.sawAcceptEncoding = true → plan.sawAcceptEncoding = true := by
      intro before
      cases ok
      split_ifs
      · rfl
      · exact before
    refine ⟨?_, ?_, passed.exempt⟩
    · rw [keep, passed.keep]
      exact sentHeaders_indices up [] headers
    · intro h member sent accept
      apply saw
      rw [passed.saw, Bool.or_eq_true]
      right
      refine List.any_eq_true.mpr ⟨h, member, ?_⟩
      rw [sent, accept]
      rfl

section Accepted

variable {nfkc : String → String}

/-- What `validate` has established of the headers. -/
theorem validate_headers {cfg : HttpConfig nfkc} {peerUid : Option Nat} {req : Request}
    {v : Validated nfkc} (accepted : validate nfkc cfg peerUid req = .ok v) :
    ∃ plan, checkHeaders v.upstream.headers req.headers ((req.body.map List.length).getD 0) =
        .ok plan ∧
      v.sendHeaders = plan.keep ∧ v.addAcceptEncoding = (req.decode && !plan.sawAcceptEncoding) ∧
      v.idempotent =
        effectiveIdempotency v.upstream.headers req.method req.headers req.idempotent := by
  unfold validate at accepted
  split at accepted
  · cases accepted
  · next up _ =>
    cases method : checkMethod nfkc up req.method with
    | error e =>
      rw [method] at accepted
      cases accepted
    | ok _ =>
      cases target : checkTarget nfkc up.targets req.target with
      | error e =>
        rw [method, target] at accepted
        cases accepted
      | ok _ =>
        rw [method, target] at accepted
        simp only [bind, Except.bind] at accepted
        by_cases origin : (req.origin.any (· != up.normalisedOrigin)) = true
        · rw [if_pos origin] at accepted
          cases accepted
        rw [if_neg origin] at accepted
        cases planned : checkHeaders up.headers req.headers
            ((req.body.map List.length).getD 0) with
        | error e =>
          simp only [planned] at accepted
          cases accepted
        | ok plan =>
          simp only [planned] at accepted
          split_ifs at accepted with large
          cases accepted
          exact ⟨plan, planned, rfl, rfl, rfl⟩

/-! ## The header map -/

def lowerName (h : Header) : Bytes :=
  h.name.map toAsciiLowercase

theorem values_appendHeaders {http : HeaderMap} (lawful : http.Lawful) {map map' : http.Map}
    {headers : List Header} (ok : appendHeaders http map headers = .ok map') (n : Bytes) :
    http.values map' n =
      http.values map n ++ (headers.filter fun h => lowerName h == n).map Header.value := by
  induction headers generalizing map with
  | nil =>
    cases ok
    exact (List.append_nil _).symm
  | cons h rest ih =>
    unfold appendHeaders at ok
    split at ok
    · cases ok
    · next middle appended =>
      unfold appendHeader at appended
      split at appended
      · next name value named valued =>
        cases appended
        rw [ih ok, lawful.append, lawful.name _ _ named, lawful.value _ _ valued,
          List.append_assoc, List.filter_cons]
        by_cases same : n = lowerName h
        · rw [if_pos (show n = h.name.map toAsciiLowercase from same),
            if_pos (beq_iff_eq.mpr same.symm)]
          rfl
        · rw [if_neg (show ¬n = h.name.map toAsciiLowercase from same),
            if_neg (fun equal => same (beq_iff_eq.mp equal).symm)]
          rfl
      · cases appended

theorem lowerName_fold {h : Header} {n : Bytes} (same : lowerName h = n) :
    foldName h.name = foldName n := by
  rw [← same]
  exact (foldName_lowercase h.name).symm

/-- The map holds the values of a name that PHP sent as PHP sent them. -/
theorem values_buildHeaders {http : HeaderMap} (lawful : http.Lawful) {v : Validated nfkc}
    {req : Request} {map : http.Map} (built : buildHeaders http v req = .ok map) {n : Bytes}
    (host : n ≠ bytesOf "host") (length : n ≠ bytesOf "content-length")
    (accept : v.addAcceptEncoding = true → n ≠ bytesOf "accept-encoding")
    (unattached : attachedNames v.upstream.headers.attached (foldName n) = false) :
    http.values map n =
      ((sentHeaders req.headers v.sendHeaders).filter fun h => lowerName h == n).map
        Header.value := by
  unfold buildHeaders at built
  cases hosted : http.valueOf v.upstream.headers.authority with
  | none =>
    rw [hosted] at built
    cases built
  | some authority =>
    rw [hosted] at built
    simp only [bind, Except.bind, pure, Except.pure] at built
    cases own : appendHeaders http (http.insert http.empty (bytesOf "host") authority)
        (sentHeaders req.headers v.sendHeaders) with
    | error e =>
      simp only [own] at built
      cases built
    | ok first =>
      simp only [own] at built
      cases attached : appendHeaders http first
          (attachedHeaders v.upstream.headers.attached) with
      | error e =>
        simp only [attached] at built
        cases built
      | ok second =>
        simp only [attached, Except.ok.injEq] at built
        have none' : (attachedHeaders v.upstream.headers.attached).filter
            (fun h => lowerName h == n) = [] := by
          rw [List.filter_eq_nil_iff]
          intro h member equal
          obtain ⟨a, inside, same⟩ := List.mem_map.mp member
          have fold := lowerName_fold (beq_iff_eq.mp equal)
          rw [← same] at fold
          rw [Bool.eq_false_iff] at unattached
          apply unattached
          refine List.any_eq_true.mpr ⟨a, inside, ?_⟩
          rw [v.upstream.headers.folded a inside, beq_iff_eq]
          exact fold
        have base : http.values second n =
            ((sentHeaders req.headers v.sendHeaders).filter fun h => lowerName h == n).map
              Header.value := by
          rw [values_appendHeaders lawful attached, none', values_appendHeaders lawful own,
            lawful.insert, if_neg host, lawful.empty]
          exact List.append_nil _
        have coded : http.values (if v.addAcceptEncoding = true then
            http.insert second (bytesOf "accept-encoding") (bytesOf "gzip, deflate")
            else second) n = http.values second n := by
          split_ifs with added
          · rw [lawful.insert, if_neg (accept added)]
          · rfl
        rw [← built, ← base, ← coded]
        by_cases body : req.body.isSome = true
        · rw [if_pos body, lawful.insert, if_neg length]
        · rw [if_neg body]

theorem foldName_ne {n : Bytes} {h : Header} (same : lowerName h = n) {name : String}
    (other : foldName h.name ≠ foldName (bytesOf name)) : n ≠ bytesOf name := by
  intro equal
  rw [equal] at same
  exact other (lowerName_fold same)

/-- The headers of every accepted request. What is sent of PHP's headers is, in PHP's order, all but
those of the engine's own names (`TE: trailers` apart) and the attached names; of the override and
forwarding headers only those that the pass list names; in the map that goes out every name has
PHP's values in PHP's order; and a header that carries the idempotency key is among those sent. -/
theorem headers_policed (cfg : HttpConfig nfkc) (peerUid : Option Nat) (req : Request)
    (v : Validated nfkc) (accepted : validate nfkc cfg peerUid req = .ok v) :
    sentHeaders req.headers v.sendHeaders = req.headers.filter (isSent v.upstream.headers) ∧
    (∀ h ∈ sentHeaders req.headers v.sendHeaders,
      (isReservedAttachName (foldName h.name) = true → foldName h.name = "te".toList ∧
        eqIgnoreAsciiCase h.value (bytesOf "trailers") = true) ∧
      attachedNames v.upstream.headers.attached (foldName h.name) = false ∧
      (isOverrideHeader (foldName h.name) = true ∨ isForwardingHeader (foldName h.name) = true →
        foldName h.name ∈ v.upstream.headers.passHeaders)) ∧
    (∀ (http : HeaderMap) (map : http.Map), http.Lawful → buildHeaders http v req = .ok map →
      ∀ h ∈ sentHeaders req.headers v.sendHeaders, http.values map (lowerName h) =
        ((sentHeaders req.headers v.sendHeaders).filter fun q => lowerName q == lowerName h).map
          Header.value) ∧
    (∀ h ∈ req.headers, carriesKey v.upstream.headers h = true →
      h ∈ sentHeaders req.headers v.sendHeaders) ∧
    (req.idempotent = none → req.method ∉ v.upstream.headers.idempotentMethods →
      v.idempotent = true →
      ∃ h ∈ sentHeaders req.headers v.sendHeaders, carriesKey v.upstream.headers h = true) := by
  obtain ⟨plan, planned, keep, accept, idempotent⟩ := validate_headers accepted
  obtain ⟨sent, saw, exempt⟩ := checkHeaders_passed planned
  rw [← keep] at sent
  have own : ∀ h ∈ sentHeaders req.headers v.sendHeaders,
      h ∈ req.headers ∧ isSent v.upstream.headers h = true := by
    intro h member
    rw [sent] at member
    exact List.mem_filter.mp member
  have keyed : ∀ h ∈ req.headers, carriesKey v.upstream.headers h = true →
      h ∈ sentHeaders req.headers v.sendHeaders := by
    intro h member carries
    rw [sent]
    exact List.mem_filter.mpr ⟨member, isSent_of_carriesKey carries⟩
  refine ⟨sent, ?_, ?_, keyed, ?_⟩
  · intro h member
    obtain ⟨inside, isSent'⟩ := own h member
    refine ⟨?_, unattached_of_isSent isSent', ?_⟩
    · intro reserved
      unfold isSent at isSent'
      rw [if_pos reserved, Bool.and_eq_true, beq_iff_eq] at isSent'
      exact isSent'
    · intro either
      have exemptible : isExemptible (foldName h.name) = true := Bool.or_eq_true_iff.mpr either
      exact List.contains_iff_mem.mp (exempt h inside exemptible)
  · intro http map lawful built h member
    obtain ⟨inside, isSent'⟩ := own h member
    have apart : ∀ name : String, isDropped (foldName (bytesOf name)) = true →
        lowerName h ≠ bytesOf name := by
      intro name dropped
      refine foldName_ne rfl ?_
      intro same
      rw [← same] at dropped
      rw [(isSent_of_isDropped v.upstream.headers dropped).1] at isSent'
      cases isSent'
    refine values_buildHeaders lawful built (apart "host" rfl) (apart "content-length" rfl) ?_ ?_
    · intro added
      refine foldName_ne rfl ?_
      intro same
      rw [accept, saw h inside isSent' same] at added
      simp at added
    · rw [show foldName (lowerName h) = foldName h.name from foldName_lowercase h.name]
      exact unattached_of_isSent isSent'
  · intro undeclared unlisted yes
    rw [idempotent, undeclared] at yes
    unfold effectiveIdempotency at yes
    rw [Bool.or_eq_true, List.contains_iff_mem] at yes
    obtain ⟨h, member, carries⟩ := List.any_eq_true.mp (yes.resolve_left unlisted)
    exact ⟨h, keyed h member carries, carries⟩

end Accepted

/-! ## A sample upstream -/

def lineValues (m : List (Bytes × Bytes)) (n : Bytes) : List Bytes :=
  (m.filter fun line => line.1 == n).map Prod.snd

/-- Header maps as lists of lines. -/
def lineMap : HeaderMap :=
  { Map := List (Bytes × Bytes)
    empty := []
    insert := fun m n v => m.filter (fun line => line.1 != n) ++ [(n, v)]
    append := fun m n v => m ++ [(n, v)]
    values := lineValues
    nameOf := fun b => if isToken b 65535 then some (b.map toAsciiLowercase) else none
    valueOf := fun b => if isFieldValue b then some b else none }

theorem lineValues_append (m : List (Bytes × Bytes)) (n v k : Bytes) :
    lineValues (m ++ [(n, v)]) k = lineValues m k ++ if k = n then [v] else [] := by
  unfold lineValues
  rw [List.filter_append, List.map_append]
  congr 1
  by_cases same : k = n
  · simp [same]
  · simp [same, Ne.symm same]

theorem lineValues_insert (m : List (Bytes × Bytes)) (n v k : Bytes) :
    lineValues (m.filter (fun line => line.1 != n) ++ [(n, v)]) k =
      if k = n then [v] else lineValues m k := by
  rw [lineValues_append]
  unfold lineValues
  rw [List.filter_filter]
  by_cases same : k = n
  · rw [if_pos same, if_pos same, same, List.filter_eq_nil_iff.mpr (by simp)]
    rfl
  · rw [if_neg same, if_neg same, List.append_nil]
    congr 1
    apply List.filter_congr
    intro line _
    by_cases equal : line.1 = k
    · simp [equal, same]
    · simp [equal]

theorem lineMap_lawful : lineMap.Lawful := by
  refine ⟨fun _ => rfl, lineValues_insert, lineValues_append, ?_, ?_⟩
  · intro b n named
    unfold lineMap at named
    simp only at named
    split_ifs at named
    cases named
    rfl
  · intro b v valued
    unfold lineMap at valued
    simp only at valued
    split_ifs at valued
    cases valued
    rfl

def bearer : AttachedHeader :=
  { name := bytesOf "Authorization", lower := "authorization".toList, value := bytesOf "Bearer x" }

def keyHeader : KeyHeader [bearer] :=
  { name := bytesOf "idempotency-key", unreserved := rfl, ordinary := rfl, unattached := rfl
    uncoded := by decide }

def apiHeaders : HeaderPolicy :=
  { authority := bytesOf "api.test", attached := [bearer], attachPolicy := .override
    passHeaders := ["x-forwarded-for".toList], idempotentMethods := []
    idempotencyKeyHeader := some keyHeader
    folded := fun h member => (by rw [List.mem_singleton.mp member]; rfl)
    unreserved := fun h member => (by rw [List.mem_singleton.mp member]; rfl)
    exemptible := fun p member => (by rw [List.mem_singleton.mp member]; rfl) }

def apiUpstream : Upstream id :=
  { name := bytesOf "api", allowUids := none, allowMethods := none
    normalisedOrigin := bytesOf "http://api.test"
    targets :=
      { pathParams := .refuse, pathEncoding := .ascii, allowPaths := [bytesOf "/"]
        checked := fun _ member => (List.mem_singleton.mp member) ▸ rfl }
    headers := apiHeaders, maxBodyBytes := 1024 }

def apiConfig : HttpConfig id :=
  { upstreams := [apiUpstream], maxBodyBytes := 1024 }

def line (name value : String) : Header :=
  { name := bytesOf name, value := bytesOf value }

def postJob : Request :=
  { upstream := bytesOf "api", method := bytesOf "POST", target := bytesOf "/jobs", origin := none
    headers := [line "Host" "api.test", line "TE" "trailers", line "A" "1", line "B" "2",
      line "a" "3", line "Idempotency-Key" "k1", line "authorization" "Basic y"]
    body := some [1, 2], idempotent := none, decode := true }

theorem headers_policed_on_sample :
    ∃ v map, validate id apiConfig none postJob = .ok v ∧ v.sendHeaders = [1, 2, 3, 4, 5] ∧
      buildHeaders lineMap v postJob = .ok map ∧
      lineMap.values map (bytesOf "a") = [bytesOf "1", bytesOf "3"] ∧
      (∀ h ∈ sentHeaders postJob.headers v.sendHeaders,
        attachedNames v.upstream.headers.attached (foldName h.name) = false) ∧
      ∃ h ∈ sentHeaders postJob.headers v.sendHeaders,
        carriesKey v.upstream.headers h = true := by
  have accepted : validate id apiConfig none postJob =
      .ok { upstream := apiUpstream, sendHeaders := [1, 2, 3, 4, 5], overridden := 1
            addAcceptEncoding := true, contentLength := 2, idempotent := true } := rfl
  obtain ⟨_, policed, values, _, keyed⟩ := headers_policed apiConfig none postJob _ accepted
  refine ⟨_, _, accepted, rfl, rfl, ?_, fun h member => (policed h member).2.1,
    keyed rfl List.not_mem_nil rfl⟩
  exact values lineMap _ lineMap_lawful rfl (line "A" "1") (by decide)

/-- `TE`, a hop-by-hop name, is sent with `trailers`. -/
theorem te_trailers_sent :
    ∃ v, validate id apiConfig none postJob = .ok v ∧
      ∃ h ∈ sentHeaders postJob.headers v.sendHeaders, foldName h.name = "te".toList := by
  have accepted : validate id apiConfig none postJob =
      .ok { upstream := apiUpstream, sendHeaders := [1, 2, 3, 4, 5], overridden := 1
            addAcceptEncoding := true, contentLength := 2, idempotent := true } := rfl
  exact ⟨_, accepted, line "TE" "trailers", by decide, rfl⟩

end FerroEngine.HttpHeaderPolicy
