import NexusWorkflow.Model.Webhooks

/-!
# Where webhooks go

Every address that is tried has been checked, and the check covers the ranges that are never allowed
in both notations of an IPv4 address.  It does not look into the other forms of an IPv6 address that
lead to an IPv4 address; these are only internal, and an operator may allow them.
-/

namespace NexusWorkflow.Webhooks

/-! ## Addresses that are never allowed -/

namespace IpAddress

/-- Unspecified, link-local (with the metadata services of clouds), multicast and reserved
addresses. -/
def NeverAllowed : IpAddress → Prop
  | .v4 bits => bits.toNat / 2 ^ 24 = 0 ∨ bits.toNat / 2 ^ 16 = 0xa9fe ∨ bits.toNat / 2 ^ 28 = 0xe ∨
      bits.toNat / 2 ^ 28 = 0xf
  | .v6 bits => bits.toNat = 0 ∨ bits.toNat / 2 ^ 118 = 0xfe80 / 2 ^ 6 ∨ bits.toNat / 2 ^ 120 = 0xff

/-- The IPv4 address of which this is the IPv6 notation. -/
def mapped : IpAddress → Option IpAddress
  | .v4 _ => none
  | .v6 bits => if bits.toNat / 2 ^ 32 = 0xffff then some (.v4 (.ofNat 32 bits.toNat)) else none

/-- The IPv4 address behind a 6to4 address. -/
def sixToFour : IpAddress → Option IpAddress
  | .v4 _ => none
  | .v6 bits =>
      if bits.toNat / 2 ^ 112 = 0x2002 then some (.v4 (.ofNat 32 (bits.toNat / 2 ^ 80))) else none

/-- The IPv4 address behind a NAT64 address. -/
def nat64 : IpAddress → Option IpAddress
  | .v4 _ => none
  | .v6 bits =>
      if bits.toNat / 2 ^ 32 = 0x64ff9b * 2 ^ 64 then some (.v4 (.ofNat 32 bits.toNat)) else none

/-- The IPv4 addresses that are reached through the address by way of a translator. -/
def translated (x : IpAddress) : List IpAddress := x.sixToFour.toList ++ x.nat64.toList

instance (x : IpAddress) : Decidable x.NeverAllowed := by
  unfold NeverAllowed
  split <;> infer_instance

end IpAddress

theorem check_of_mem {list : BlockList} {x : IpAddress} (subnet : Subnet) (h : subnet ∈ list)
    (hx : x.value / 2 ^ subnet.rest = subnet.net.value / 2 ^ subnet.rest) : list.check x = true :=
  List.any_eq_true.2 ⟨subnet, h, decide_eq_true hx⟩

theorem check_congr {list : BlockList} {x y : IpAddress} (h : x.value = y.value) :
    list.check x = list.check y := by
  unfold BlockList.check Subnet.contains
  rw [h]

theorem value_mapped {x y : IpAddress} (h : x.mapped = some y) : x.value = y.value := by
  cases x with
  | v4 bits => cases h
  | v6 bits =>
    simp only [IpAddress.mapped] at h
    split_ifs at h with hbits
    cases h
    show bits.toNat = 0xffff * 2 ^ 32 + (BitVec.ofNat 32 bits.toNat).toNat
    rw [BitVec.toNat_ofNat]
    omega

open IpAddress in
theorem hardBlocked_of_neverAllowed {x : IpAddress} (h : x.NeverAllowed) :
    hardBlocked.check x = true := by
  cases x with
  | v4 bits =>
    have hvalue : (IpAddress.v4 bits).value = 0xffff * 2 ^ 32 + bits.toNat := rfl
    rcases h with h | h | h | h
    · have hnet : (ip4 0 0 0 0).value / 2 ^ 24 = 0xffff00 := by decide
      refine check_of_mem ⟨ip4 0 0 0 0, 8⟩ (by decide) ?_
      show _ / 2 ^ 24 = (ip4 0 0 0 0).value / 2 ^ 24
      omega
    · have hnet : (ip4 169 254 0 0).value / 2 ^ 16 = 0xffffa9fe := by decide
      refine check_of_mem ⟨ip4 169 254 0 0, 16⟩ (by decide) ?_
      show _ / 2 ^ 16 = (ip4 169 254 0 0).value / 2 ^ 16
      omega
    · have hnet : (ip4 224 0 0 0).value / 2 ^ 28 = 0xffffe := by decide
      refine check_of_mem ⟨ip4 224 0 0 0, 4⟩ (by decide) ?_
      show _ / 2 ^ 28 = (ip4 224 0 0 0).value / 2 ^ 28
      omega
    · have hnet : (ip4 240 0 0 0).value / 2 ^ 28 = 0xfffff := by decide
      refine check_of_mem ⟨ip4 240 0 0 0, 4⟩ (by decide) ?_
      show _ / 2 ^ 28 = (ip4 240 0 0 0).value / 2 ^ 28
      omega
  | v6 bits =>
    have hvalue : (IpAddress.v6 bits).value = bits.toNat := rfl
    rcases h with h | h | h
    · refine check_of_mem ⟨ip6 [0, 0, 0, 0, 0, 0, 0, 0], 128⟩ (by decide) ?_
      rw [hvalue, h]
      decide
    · have hnet : (ip6 [0xfe80, 0, 0, 0, 0, 0, 0, 0]).value / 2 ^ 118 = 0xfe80 / 2 ^ 6 := by decide
      refine check_of_mem ⟨ip6 [0xfe80, 0, 0, 0, 0, 0, 0, 0], 10⟩ (by decide) ?_
      rw [hvalue]
      exact h.trans hnet.symm
    · have hnet : (ip6 [0xff00, 0, 0, 0, 0, 0, 0, 0]).value / 2 ^ 120 = 0xff := by decide
      refine check_of_mem ⟨ip6 [0xff00, 0, 0, 0, 0, 0, 0, 0], 8⟩ (by decide) ?_
      rw [hvalue]
      exact h.trans hnet.symm

/-- The check covers the addresses themselves and their IPv6 notation. -/
theorem not_neverAllowed {x : IpAddress} (h : hardBlocked.check x = false) :
    ¬ x.NeverAllowed ∧ ∀ y, x.mapped = some y → ¬ y.NeverAllowed := by
  refine ⟨fun hnever => ?_, fun y hy hnever => ?_⟩
  · rw [hardBlocked_of_neverAllowed hnever] at h
    cases h
  · rw [check_congr (value_mapped hy), hardBlocked_of_neverAllowed hnever] at h
    cases h

/-! ## The check -/

section Policy

variable {platform : Platform} {policy : WebhookUrlPolicy} {address : String}

/-- The operator trusts the address, or the host that it was found for. -/
def AllowListed (platform : Platform) (policy : WebhookUrlPolicy) (hostname : Option String)
    (x : IpAddress) : Prop :=
  ∃ allowed, buildAllowList platform policy.allowedHosts = .ok allowed ∧
    (allowed.addresses.check x = true ∨ ∃ h ∈ hostname, platform.toLowerCase h ∈ allowed.hosts)

/-- What the check leaves through. -/
theorem of_not_blocked {hostname : Option String}
    (h : isBlockedAddress platform policy address hostname = .ok false) :
    ∃ x, platform.address address = some x ∧ hardBlocked.check x = false ∧
      (internal.check x = true → AllowListed platform policy hostname x) := by
  unfold isBlockedAddress at h
  split at h
  · cases h
  · next x hx =>
    split_ifs at h with hhard hinternal
    · cases h
    · refine ⟨x, hx, by simpa using hhard, fun hinside => ?_⟩
      simp [hinside] at hinternal
    · refine ⟨x, hx, by simpa using hhard, fun _ => ?_⟩
      cases hallowed : buildAllowList platform policy.allowedHosts with
      | error e =>
        rw [hallowed] at h
        cases h
      | ok allowed =>
        rw [hallowed] at h
        refine ⟨allowed, hallowed, ?_⟩
        have hpass : (!allowed.addresses.check x &&
            !hostname.any fun h => platform.toLowerCase h ∈ allowed.hosts) = false :=
              Except.ok.inj h
        cases hcheck : allowed.addresses.check x with
        | true => exact .inl rfl
        | false =>
          rw [hcheck] at hpass
          simpa [Option.any_eq_true] using hpass

theorem isBlockedAddress_of_literal {host : String}
    (h : isBlockedAddress platform policy address none = .ok false) :
    isBlockedAddress platform policy address (some host) = .ok false := by
  unfold isBlockedAddress at h ⊢
  split at h
  · cases h
  · next x hx =>
    split_ifs at h ⊢
    · cases h
    · rfl
    · cases hallowed : buildAllowList platform policy.allowedHosts with
      | error e =>
        rw [hallowed] at h
        cases h
      | ok allowed =>
        rw [hallowed] at h
        have hcheck : allowed.addresses.check x = true := by simpa using Except.ok.inj h
        show Except.ok (!allowed.addresses.check x && _) = _
        rw [hcheck]
        rfl

theorem anyBlocked_iff {host : String} {addresses : List String} :
    anyBlocked platform policy host addresses = .ok false ↔
      ∀ a ∈ addresses, isBlockedAddress platform policy a (some host) = .ok false := by
  induction addresses with
  | nil => simp [anyBlocked]
  | cons address addresses ih =>
    rw [List.forall_mem_cons, ← ih, anyBlocked]
    cases isBlockedAddress platform policy address (some host) with
    | error e => exact ⟨fun h => (by cases h), fun h => (by cases h.1)⟩
    | ok blocked =>
      cases blocked with
      | true => exact ⟨fun h => (by cases h), fun h => (by cases h.1)⟩
      | false => exact ⟨fun h => ⟨rfl, h⟩, fun h => h.2⟩

end Policy

/-! ## What is called -/

/-- How often the resolver has been asked. -/
def questions (h : List (Happening WebhookOp WebhookOp.Answer WebhookError)) : Nat :=
  h.countP fun e => match e.1 with
    | .resolve _ => true
    | .request _ _ _ => false

/-- The resolver answers each question on its own; a request may end in any way. -/
def AnsweredBy (resolver : Nat → String → Except WebhookError (List String))
    (h : List (Happening WebhookOp WebhookOp.Answer WebhookError)) :
    Happening WebhookOp WebhookOp.Answer WebhookError → Prop
  | ⟨.resolve host, answer⟩ => answer = resolver (questions h) host
  | ⟨.request _ _ _, _⟩ => True

section Claims

variable (platform : Platform) (policy : WebhookUrlPolicy)

/-- The address is that of the URL, or among those that its host has been resolved to. -/
def Checked (url : Url) (h : List (Happening WebhookOp WebhookOp.Answer WebhookError))
    (address : String) : Prop :=
  (platform.address (bareHostname platform url)).isSome ∧ address = bareHostname platform url ∨
    (platform.address (bareHostname platform url)).isNone ∧
      ∃ addresses, ⟨.resolve (bareHostname platform url), .ok addresses⟩ ∈ h ∧ address ∈ addresses

/-- The address is not in a range that is never allowed, nor another form of such an address, and it
is not internal unless it is allow-listed. -/
def Outside (url : Url) (address : String) : Prop :=
  ∃ x, platform.address address = some x ∧ ¬ x.NeverAllowed ∧
    (∀ y, x.mapped = some y → ¬ y.NeverAllowed) ∧
    (∀ y ∈ x.translated, ¬ y.NeverAllowed) ∧
      (internal.check x = true → AllowListed platform policy (some (bareHostname platform url)) x)

/-- The resolver is asked once, and a connection is attempted only to an address that has been
checked and is not on the internal network. -/
def StaysOutside (raw : String) (h : List (Happening WebhookOp WebhookOp.Answer WebhookError)) :
    WebhookOp → Prop
  | .resolve _ => questions h = 0
  | .request options _ _ =>
      ∃ url, platform.parseUrl raw = some url ∧ Checked platform url h options.host ∧
        Outside platform policy url options.host

end Claims

/-! ## Runs of the function -/

section Runs

variable {platform : Platform} {policy : WebhookUrlPolicy} {raw : String}
  {resolver : Nat → String → Except WebhookError (List String)}
  {h : List (Happening WebhookOp WebhookOp.Answer WebhookError)}

theorem checked_append_request {url : Url} {address : String} {options : RequestOptions}
    {body : String} {timeoutMs : Nat} {answer : Except WebhookError Nat} :
    Checked platform url (h ++ [⟨.request options body timeoutMs, answer⟩]) address ↔
      Checked platform url h address := by
  simp [Checked]

theorem tryAddresses_cons {url : Url} {init : WebhookRequest} {timeoutMs : Nat} {address : String}
    {addresses : List String} {e : WebhookError} :
    (tryAddresses platform url init timeoutMs (address :: addresses) e).behaves
    (AnsweredBy resolver)
        (StaysOutside platform policy raw) (fun _ _ => True) h ↔
      StaysOutside platform policy raw h
          (.request (requestOptions platform url address init) init.body timeoutMs) ∧
        ∀ e', e' ≠ .request true →
          (tryAddresses platform url init timeoutMs addresses e').behaves (AnsweredBy resolver)
            (StaysOutside platform policy raw) (fun _ _ => True)
            (h ++ [⟨.request (requestOptions platform url address init) init.body timeoutMs,
              .error e'⟩]) := by
  refine ⟨fun hb => ⟨hb.1, fun e' he' => ?_⟩, fun hb => ⟨hb.1, fun answer _ => ?_⟩⟩
  · have hrest : Async.behaves (AnsweredBy resolver) (StaysOutside platform policy raw)
        (if e' = .request true then throw e'
          else tryAddresses platform url init timeoutMs addresses e')
          (fun _ _ => True) _ := hb.2 (.error e') trivial
    rwa [if_neg he'] at hrest
  · cases answer with
    | ok status => trivial
    | error e' =>
      show Async.behaves (AnsweredBy resolver) (StaysOutside platform policy raw)
        (if e' = .request true then throw e'
          else tryAddresses platform url init timeoutMs addresses e')
          (fun _ _ => True) _
      split_ifs with he'
      · trivial
      · exact hb.2 e' he'

/-- Every address may come to be tried, namely when no connection to the ones before it can be
made. -/
theorem tryAddresses_behaves {url : Url} {init : WebhookRequest} {timeoutMs : Nat}
    {addresses : List String} {e : WebhookError} :
    (tryAddresses platform url init timeoutMs addresses e).behaves (AnsweredBy resolver)
        (StaysOutside platform policy raw) (fun _ _ => True) h ↔
      ∀ address ∈ addresses, ∃ url', platform.parseUrl raw = some url' ∧
        Checked platform url' h address ∧
        Outside platform policy url' address := by
  induction addresses generalizing e h with
  | nil => exact ⟨fun _ => by simp, fun _ => trivial⟩
  | cons address addresses ih =>
    rw [tryAddresses_cons, List.forall_mem_cons]
    refine and_congr_right fun _ => ⟨fun hrest => ?_, fun hrest e' _ => ?_⟩
    · simpa only [ih, checked_append_request] using hrest (.request false) (by simp)
    · simpa only [ih, checked_append_request] using hrest

theorem parseUrl_of_parse {url : Url} (h : parseWebhookUrl platform policy raw = .ok url) :
    platform.parseUrl raw = some url ∧
      ((platform.address (bareHostname platform url)).isSome = true →
      isBlockedAddress platform policy (bareHostname platform url) none = .ok false) := by
  unfold parseWebhookUrl at h
  split at h
  · cases h
  · next url' hurl =>
    dsimp only at h
    split_ifs at h with hprotocol hcredentials hliteral hlocal
    · cases hblocked : isBlockedAddress platform policy (bareHostname platform url') none with
      | error e =>
        rw [hblocked] at h
        cases h
      | ok blocked =>
        rw [hblocked] at h
        cases blocked with
        | true => cases h
        | false =>
          cases h
          exact ⟨hurl, fun _ => hblocked⟩
    · cases hallowed : buildAllowList platform policy.allowedHosts with
      | error e =>
        rw [hallowed] at h
        cases h
      | ok allowed =>
        rw [hallowed] at h
        replace h : (if bareHostname platform url' ∈ allowed.hosts then pure url'
          else throw notAllowed) =
          (.ok url : Except WebhookError Url) := h
        split_ifs at h
        cases h
        exact ⟨hurl, fun h => absurd h hliteral⟩
    · cases h
      exact ⟨hurl, fun h => absurd h hliteral⟩

/-- The addresses that the function may come to try, if none of them is blocked. -/
def Found (platform : Platform) (resolver : Nat → String → Except WebhookError (List String))
    (url : Url) (addresses : List String) : Prop :=
  if (platform.address (bareHostname platform url)).isSome then
    addresses = [bareHostname platform url]
  else resolver 0 (bareHostname platform url) = .ok addresses

theorem outside_iff {url : Url} {address : String}
    (hpass : isBlockedAddress platform policy address (some (bareHostname platform url)) =
    .ok false) :
    Outside platform policy url address ↔
      ∀ x, platform.address address = some x → ∀ y ∈ x.translated, ¬ y.NeverAllowed := by
  obtain ⟨x, hx, hhard, hlisted⟩ := of_not_blocked hpass
  constructor
  · rintro ⟨x', hx', -, -, htranslated, -⟩ x'' hx''
    cases hx'.symm.trans hx''
    exact htranslated
  · intro h
    obtain ⟨hnever, hmapped⟩ := not_neverAllowed hhard
    exact ⟨x, hx, hnever, hmapped, h x hx, hlisted⟩

/-- The addresses are tried once they have been found. -/
theorem tryFound_behaves {url : Url} {init : WebhookRequest} {timeoutMs : Nat}
    {addresses : List String} {e : WebhookError} (hurl : platform.parseUrl raw = some url)
    (hchecked : ∀ a ∈ addresses, Checked platform url h a)
    (hpass : ∀ a ∈ addresses,
    isBlockedAddress platform policy a (some (bareHostname platform url)) = .ok false) :
    (tryAddresses platform url init timeoutMs addresses e).behaves (AnsweredBy resolver)
        (StaysOutside platform policy raw) (fun _ _ => True) h ↔
      ∀ a ∈ addresses, ∀ x, platform.address a = some x → ∀ y ∈ x.translated, ¬ y.NeverAllowed := by
  rw [tryAddresses_behaves]
  refine forall₂_congr fun a ha => ?_
  rw [← outside_iff (hpass a ha)]
  constructor
  · rintro ⟨url', hurl', -, houtside⟩
    cases hurl.symm.trans hurl'
    exact houtside
  · exact fun houtside => ⟨url, hurl, hchecked a ha, houtside⟩

theorem checked_answer {url : Url} {addresses : List String}
    (hhost : ¬ (platform.address (bareHostname platform url)).isSome = true) :
    ∀ a ∈ addresses, Checked platform url
      [⟨.resolve (bareHostname platform url), .ok addresses⟩] a :=
  fun _ ha => .inr ⟨by simpa using hhost, addresses, List.mem_singleton_self _, ha⟩

/-- No address is blocked: each one may come to be tried. -/
theorem safeFetch_found {url : Url} {init : WebhookRequest} {timeoutMs : Nat}
    {addresses : List String} (hparse : parseWebhookUrl platform policy raw = .ok url)
    (hfound : Found platform resolver url addresses) (hpass : ∀ a ∈ addresses,
    isBlockedAddress platform policy a (some (bareHostname platform url)) = .ok false) :
    (safeFetch platform policy raw init timeoutMs).behaves (AnsweredBy resolver)
        (StaysOutside platform policy raw) (fun _ _ => True) [] ↔
      ∀ a ∈ addresses, ∀ x, platform.address a = some x → ∀ y ∈ x.translated, ¬ y.NeverAllowed := by
  have hurl := (parseUrl_of_parse hparse).1
  unfold safeFetch resolveWebhookTarget
  rw [Async.behaves_bind, hparse]
  dsimp only
  by_cases hhost : (platform.address (bareHostname platform url)).isSome = true
  · rw [Found, if_pos hhost] at hfound
    subst hfound
    rw [if_pos hhost, Async.behaves_pure]
    exact tryFound_behaves hurl (fun a ha => .inl ⟨hhost, List.mem_singleton.1 ha⟩) hpass
  · rw [Found, if_neg hhost] at hfound
    rw [if_neg hhost, Async.behaves_bind, Async.behaves_tryCatch, await, Async.behaves_await]
    by_cases hempty : addresses = []
    · refine ⟨fun _ => by simp [hempty], fun _ => ⟨rfl, fun answer hanswer => ?_⟩⟩
      obtain rfl : answer = .ok addresses :=
        hfound ▸ (hanswer : answer = resolver 0 (bareHostname platform url))
      dsimp only
      rw [if_pos hempty]
      trivial
    · constructor
      · rintro ⟨-, hanswer⟩
        have hrun := hanswer (.ok addresses) hfound.symm
        dsimp only at hrun
        rw [if_neg hempty, anyBlocked_iff.2 hpass] at hrun
        exact (tryFound_behaves hurl (checked_answer hhost) hpass).1 hrun
      · refine fun h => ⟨rfl, fun answer hanswer => ?_⟩
        obtain rfl : answer = .ok addresses :=
          hfound ▸ (hanswer : answer = resolver 0 (bareHostname platform url))
        dsimp only
        rw [if_neg hempty, anyBlocked_iff.2 hpass]
        exact (tryFound_behaves hurl (checked_answer hhost) hpass).2 h

/-- The URL is refused, or an address is blocked, or none is found: nothing is tried. -/
theorem safeFetch_refused {init : WebhookRequest} {timeoutMs : Nat}
    (hrefused : ¬ ∃ url addresses, parseWebhookUrl platform policy raw = .ok url ∧
      Found platform resolver url addresses ∧
        ∀ a ∈ addresses, isBlockedAddress platform policy a (some (bareHostname platform url)) =
          .ok false) :
    (safeFetch platform policy raw init timeoutMs).behaves (AnsweredBy resolver)
        (StaysOutside platform policy raw) (fun _ _ => True) [] := by
  unfold safeFetch resolveWebhookTarget
  rw [Async.behaves_bind]
  cases hparse : parseWebhookUrl platform policy raw with
  | error e => trivial
  | ok url =>
    dsimp only
    by_cases hhost : (platform.address (bareHostname platform url)).isSome = true
    · have hfound : Found platform resolver url [bareHostname platform url] := by
        rw [Found, if_pos hhost]
      have hpass : isBlockedAddress platform policy (bareHostname platform url)
          (some (bareHostname platform url)) = .ok false :=
        isBlockedAddress_of_literal ((parseUrl_of_parse hparse).2 hhost)
      exact absurd ⟨url, _, hparse, hfound, by simpa using hpass⟩ hrefused
    · rw [if_neg hhost, Async.behaves_bind, Async.behaves_tryCatch, await, Async.behaves_await]
      refine ⟨rfl, fun answer hanswer => ?_⟩
      have hanswer : answer = resolver 0 (bareHostname platform url) := hanswer
      cases answer with
      | error e => trivial
      | ok addresses =>
        dsimp only
        by_cases hempty : addresses = []
        · rw [if_pos hempty]
          trivial
        · rw [if_neg hempty]
          split
          · trivial
          · trivial
          · next hpass =>
            have hfound : Found platform resolver url addresses := by
              rw [Found, if_neg hhost]
              exact hanswer.symm
            exact absurd ⟨url, addresses, hparse, hfound, anyBlocked_iff.1 hpass⟩ hrefused

/-- Whatever the resolver answers and the network does, the function asks once and connects only to
what it has checked, outside the internal network, if and only if the addresses that it finds,
unless one of them is blocked, are no 6to4 or NAT64 forms of addresses that are never allowed. -/
theorem webhooks_stay_outside {init : WebhookRequest} {timeoutMs : Nat} :
    (safeFetch platform policy raw init timeoutMs).behaves (AnsweredBy resolver)
        (StaysOutside platform policy raw) (fun _ _ => True) [] ↔
      ∀ url addresses, parseWebhookUrl platform policy raw = .ok url →
        Found platform resolver url addresses →
        (∀ a ∈ addresses, isBlockedAddress platform policy a (some (bareHostname platform url)) =
          .ok false) →
          ∀ a ∈ addresses, ∀ x, platform.address a = some x →
            ∀ y ∈ x.translated, ¬ y.NeverAllowed := by
  constructor
  · exact fun h url addresses hparse hfound hpass => (safeFetch_found hparse hfound hpass).1 h
  · intro h
    by_cases hex : ∃ url addresses, parseWebhookUrl platform policy raw = .ok url ∧
        Found platform resolver url addresses ∧
          ∀ a ∈ addresses, isBlockedAddress platform policy a (some (bareHostname platform url)) =
            .ok false
    · obtain ⟨url, addresses, hparse, hfound, hpass⟩ := hex
      exact (safeFetch_found hparse hfound hpass).2 (h url addresses hparse hfound hpass)
    · exact safeFetch_refused hex

end Runs

def hooksUrl : Url where
  protocol := "https:"
  hostname := "hooks.internal"
  host := "hooks.internal"
  pathname := "/in"

/-- A platform that knows one URL and one address, the 6to4 form of 169.254.169.254. -/
def onePlatform : Platform where
  parseUrl raw := if raw = "https://hooks.internal/in" then some hooksUrl else none
  address text :=
    if text = "2002:a9fe:a9fe::1" then some (.ip6 [0x2002, 0xa9fe, 0xa9fe, 0, 0, 0, 0, 1]) else none
  toLowerCase text := text

def trusting : WebhookUrlPolicy where
  allowHttp := false
  allowedHosts := ["hooks.internal"]

/-- The resolver answers every question with the address of a metadata service, in its 6to4 form. -/
def metadataResolver (_ : Nat) (_ : String) : Except WebhookError (List String) :=
  .ok ["2002:a9fe:a9fe::1"]

theorem parse_hooksUrl :
    parseWebhookUrl onePlatform trusting "https://hooks.internal/in" = .ok hooksUrl := by
  decide +kernel

theorem found_hooksUrl : Found onePlatform metadataResolver hooksUrl ["2002:a9fe:a9fe::1"] := by
  rw [Found, if_neg (by decide +kernel)]
  rfl

/-- The list of ranges lets the 6to4 form of a never-allowed address pass. -/
theorem hooksUrl_passes :
    ∀ a ∈ ["2002:a9fe:a9fe::1"],
      isBlockedAddress onePlatform trusting a (some (bareHostname onePlatform hooksUrl)) =
        .ok false := by
  decide +kernel

/-- The allow-listed host leads to a metadata service. -/
theorem not_webhooks_stay_outside :
    ¬ ∀ (platform : Platform) (policy : WebhookUrlPolicy)
      (resolver : Nat → String → Except WebhookError (List String)) (raw : String)
      (init : WebhookRequest) (timeoutMs : Nat),
      (safeFetch platform policy raw init timeoutMs).behaves (AnsweredBy resolver)
        (StaysOutside platform policy raw) (fun _ _ => True) [] := by
  intro h
  have hrun := h onePlatform trusting metadataResolver "https://hooks.internal/in"
      ⟨"POST", [], ""⟩ 10000
  have htarget := @safeFetch_found onePlatform trusting "https://hooks.internal/in" metadataResolver
      hooksUrl
    ⟨"POST", [], ""⟩ 10000 ["2002:a9fe:a9fe::1"] parse_hooksUrl found_hooksUrl hooksUrl_passes
  have haddress : onePlatform.address "2002:a9fe:a9fe::1" =
      some (.ip6 [0x2002, 0xa9fe, 0xa9fe, 0, 0, 0, 0, 1]) := by
    decide +kernel
  have htranslated : .v4 0xa9fea9fe ∈
      (IpAddress.ip6 [0x2002, 0xa9fe, 0xa9fe, 0, 0, 0, 0, 1]).translated := by
    decide +kernel
  have hnever : (IpAddress.v4 0xa9fea9fe).NeverAllowed := by
    decide +kernel
  exact htarget.1 hrun _ (List.mem_singleton_self _) _ haddress _ htranslated hnever

end NexusWorkflow.Webhooks
