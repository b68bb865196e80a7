import NexusWorkflow.Model.ClientAddress

/-!
# The address cannot be forged

The entries of `X-Forwarded-For` end with those of the trusted proxies, whatever stands before them.
-/

namespace NexusWorkflow

/-- The entries of the header, if there is one. -/
def headerEntries (header : Option String) : List (List Char) :=
  Text.entries ',' (header.getD "").toList

theorem entries_padded (proxy : Proxy) :
    Text.entries ',' (proxy.before ++ proxy.address ++ proxy.after).toList =
      [proxy.address.toList] := by
  have htrim : Text.trim (proxy.before ++ proxy.address ++ proxy.after).toList =
      proxy.address.toList := by
    rw [String.toList_append, String.toList_append,
      Text.trim_pad proxy.before_blank proxy.after_blank, proxy.trimmed]
  have hblank : Text.isBlank ',' = false := by decide
  have hcomma : ',' ∉ (proxy.before ++ proxy.address ++ proxy.after).toList := by
    rw [String.toList_append, String.toList_append, List.mem_append, List.mem_append]
    rintro ((hmem | hmem) | hmem)
    · exact absurd (proxy.before_blank _ hmem) (by rw [hblank]; decide)
    · exact proxy.no_comma hmem
    · exact absurd (proxy.after_blank _ hmem) (by rw [hblank]; decide)
  have hne : Text.trim (proxy.before ++ proxy.address ++ proxy.after).toList ≠ [] := by
    rw [htrim]
    simpa using proxy.nonempty
  rw [Text.entries_singleton hcomma hne, htrim]

/-- A proxy adds one entry at the end. -/
theorem headerEntries_forward (proxy : Proxy) (header : Option String) :
    headerEntries (some (proxy.forward header)) =
      headerEntries header ++ [proxy.address.toList] := by
  unfold headerEntries Proxy.forward
  cases header with
  | none =>
    have hnil : Text.entries ',' (none.getD "" : String).toList = [] := by decide
    rw [hnil]
    exact entries_padded proxy
  | some text =>
    have hsplit : (text ++ "," ++ (proxy.before ++ proxy.address ++ proxy.after)).toList =
        text.toList ++ ',' :: (proxy.before ++ proxy.address ++ proxy.after).toList := by
      simp [String.toList_append]
    dsimp only [Option.getD_some]
    rw [hsplit, Text.entries_append, entries_padded]

theorem headerEntries_forwardedFor (sent : Option String) (proxies : List Proxy) :
    headerEntries (forwardedFor sent proxies) = headerEntries sent ++ proxies.map
      (·.address.toList) := by
  induction proxies generalizing sent with
  | nil => simp [forwardedFor]
  | cons proxy rest ih =>
    have hstep : forwardedFor sent (proxy :: rest) =
        forwardedFor (some (proxy.forward sent)) rest := rfl
    rw [hstep, ih, headerEntries_forward]
    simp

/-- Whatever the client sends, its address is the one that the outermost trusted proxy has seen. -/
theorem clientIp_forwardedFor (sent remote : Option String) (outermost : Proxy)
    (rest : List Proxy) :
    clientIp (forwardedFor sent (outermost :: rest)) remote (rest.length + 1) =
      outermost.address := by
  have hentries := headerEntries_forwardedFor sent (outermost :: rest)
  unfold headerEntries at hentries
  have hlength : (headerEntries sent ++ (outermost :: rest).map (·.address.toList)).length =
      (headerEntries sent).length + (rest.length + 1) := by
    simp
  unfold clientIp
  rw [if_pos (Nat.succ_pos _)]
  dsimp only
  rw [hentries]
  change (if rest.length + 1 ≤
    (headerEntries sent ++ (outermost :: rest).map (·.address.toList)).length then _ else _) = _
  rw [if_pos (by omega)]
  have hget : (headerEntries sent ++ (outermost :: rest).map (·.address.toList))[
      (headerEntries sent ++ (outermost :: rest).map (·.address.toList)).length -
        (rest.length + 1)]? =
        some outermost.address.toList := by
    rw [hlength, Nat.add_sub_cancel, List.getElem?_append_right (Nat.le_refl _)]
    simp
  simp only [headerEntries] at hget ⊢
  rw [hget]
  exact String.ofList_toList

/-- Two requests that differ in what the client has put in the header come from the same address,
the one that the outermost trusted proxy has seen, and count for the same keys. -/
theorem clientIp_unforgeable (outermost : Proxy) (rest : List Proxy)
    (sent sent' remote remote' : Option String) :
    let ip := clientIp (forwardedFor sent (outermost :: rest)) remote (rest.length + 1)
    let ip' := clientIp (forwardedFor sent' (outermost :: rest)) remote' (rest.length + 1)
    ip = outermost.address ∧ ip' = ip ∧ ∀ accountKey,
      throttleKeys accountKey ip' = throttleKeys accountKey ip := by
  intro ip ip'
  have hip : ip = outermost.address := clientIp_forwardedFor sent remote outermost rest
  have hip' : ip' = outermost.address := clientIp_forwardedFor sent' remote' outermost rest
  have hsame : ip' = ip := hip'.trans hip.symm
  exact ⟨hip, hsame, fun accountKey => by rw [hsame]⟩

/-- It has received the request from the client. -/
def edgeProxy : Proxy where
  address := "198.51.100.7"
  nonempty := by decide
  no_comma := by decide +kernel
  trimmed := by decide +kernel
  before_blank := List.all_eq_true.1 (by decide +kernel)
  after_blank := List.all_eq_true.1 (by decide +kernel)

/-- It stands behind the other one, and pads what it adds. -/
def innerProxy : Proxy where
  address := "192.0.2.1"
  before := "  "
  after := " "
  nonempty := by decide
  no_comma := by decide +kernel
  trimmed := by decide +kernel
  before_blank := List.all_eq_true.1 (by decide +kernel)
  after_blank := List.all_eq_true.1 (by decide +kernel)

/-- Behind two proxies, a client that forges three entries counts as one that sends no header. -/
theorem clientIp_unforgeable_forged :
    forwardedFor (some "203.0.113.9, ,unknown,10.0.0.1") [edgeProxy, innerProxy] =
        some "203.0.113.9, ,unknown,10.0.0.1, 198.51.100.7,  192.0.2.1 " ∧
      clientIp (forwardedFor none [edgeProxy, innerProxy]) none 2 = "198.51.100.7" ∧
      clientIp (forwardedFor (some "203.0.113.9, ,unknown,10.0.0.1") [edgeProxy, innerProxy]) none
        2 = clientIp (forwardedFor none [edgeProxy, innerProxy]) none 2 := by
  obtain ⟨hip, hsame, -⟩ := clientIp_unforgeable edgeProxy [innerProxy] none
    (some "203.0.113.9, ,unknown,10.0.0.1") none none
  exact ⟨by decide +kernel, hip, hsame⟩

end NexusWorkflow
