import CirisServer.Native.Consent

/-!
# A recant stops emission

The sort of `resolve_grant` brings a newest row of the consent dimension to the front, and nothing
else of the list is read. So a retraction that only retractions follow is what a seal is answered
with, whatever operator config says.

Key results:
- `resolveGrant_eq`: what is on file is what a newest row says
- `recant_stops_emission`: a retraction that is not followed blocks the seal
- `grant_outlives_recant`: a grant and a recant of one instant
-/

namespace CirisServer.Consent

open TraceCapture

variable {rows rows' : List Attestation} {a b : Attestation} {config : ConsentConfig}

/-! ## The newest row -/

instance : Std.Total Attestation.newestFirst := ⟨fun a b => le_total b.stamp a.stamp⟩

instance : IsTrans Attestation Attestation.newestFirst := ⟨fun _ _ _ hab hbc => hbc.trans hab⟩

/-- No row of the dimension comes after it. -/
def Newest (rows : List Attestation) (a : Attestation) : Prop :=
  a ∈ matching rows ∧ ∀ b ∈ matching rows, b.stamp ≤ a.stamp

theorem newest_of_sort {rest : List Attestation}
    (h : (matching rows).insertionSort Attestation.newestFirst = a :: rest) : Newest rows a := by
  have hmem : ∀ b, b ∈ matching rows ↔ b ∈ a :: rest := fun b => by
    rw [← h, List.mem_insertionSort]
  have hsorted := List.pairwise_insertionSort Attestation.newestFirst (matching rows)
  rw [h, List.pairwise_cons] at hsorted
  refine ⟨(hmem a).mpr List.mem_cons_self, fun b hb => ?_⟩
  rcases List.mem_cons.mp ((hmem b).mp hb) with rfl | hrest
  · exact le_refl _
  · exact hsorted.1 b hrest

/-- What is on file is what a newest row says. -/
theorem resolveGrant_eq (h : matching rows ≠ []) :
    ∃ a, Newest rows a ∧ resolveGrant rows = grantOf a := by
  unfold resolveGrant
  cases hsort : (matching rows).insertionSort Attestation.newestFirst with
  | nil =>
    have hlen := List.length_insertionSort Attestation.newestFirst (matching rows)
    rw [hsort, List.length_nil] at hlen
    exact absurd (List.length_eq_zero_iff.mp hlen.symm) h
  | cons a rest => exact ⟨a, newest_of_sort hsort, rfl⟩

theorem resolveGrant_nil (h : matching rows = []) : resolveGrant rows = .absent := by
  unfold resolveGrant
  rw [h]
  rfl

/-! ## Retractions -/

/-- The row takes consent back. -/
def Attestation.Retracts (a : Attestation) : Prop :=
  a.attestationType = "withdraws" ∨ a.attestationType = "recants"

/-- The dimension holds a retraction, and whatever is at its place or after it retracts as well. -/
def Retracted (rows : List Attestation) : Prop :=
  ∃ a ∈ matching rows, ∀ b ∈ matching rows, a.stamp ≤ b.stamp → b.Retracts

instance (a : Attestation) : Decidable a.Retracts :=
  inferInstanceAs (Decidable (a.attestationType = "withdraws" ∨ a.attestationType = "recants"))

instance (rows : List Attestation) : Decidable (Retracted rows) :=
  inferInstanceAs (Decidable (∃ a ∈ matching rows, _))

theorem grantOf_of_retracts (h : a.Retracts) : grantOf a = .withdrawn a.assertedAt := by
  unfold grantOf
  rcases h with h | h <;> simp [h]

theorem resolveGrant_of_retracted (h : Retracted rows) :
    ∃ since, resolveGrant rows = .withdrawn since := by
  obtain ⟨a, ha, hfollow⟩ := h
  obtain ⟨newest, ⟨hmem, hnewest⟩, heq⟩ := resolveGrant_eq (List.ne_nil_of_mem ha)
  rw [heq, grantOf_of_retracts (hfollow newest hmem (hnewest a ha))]
  exact ⟨_, rfl⟩

/-- A seal while consent is taken back. -/
theorem gateSeal_of_retracted {client : CaptureClient} {env : Env} {keyId : String}
    {trace : CompleteTrace} (hkey : client.consentAttestingKeyId = some keyId)
    (hdir : env.dir keyId = .ok rows) (h : Retracted rows) :
    client.gateSeal env trace = .ok (.notSealing (.consentBlocked "withdrawn")) := by
  obtain ⟨since, hgrant⟩ := resolveGrant_of_retracted h
  have hresolution : client.consentResolution env = .ok (.withdrawn since) := by
    unfold CaptureClient.consentResolution
    rw [hkey]
    show resolveConsentViaEngine env.dir keyId client.consentConfig = _
    simp only [resolveConsentViaEngine, hdir, hgrant]
    rfl
  unfold CaptureClient.gateSeal
  rw [hresolution]
  rfl

/-! ## What is not read -/

/-- One row at the front of the order. -/
theorem newest_unique (hids : ((matching rows).map Attestation.attestationId).Nodup)
    (ha : Newest rows a) (hb : Newest rows b) : a = b := by
  have hstamp : a.stamp = b.stamp := le_antisymm (hb.2 a ha.1) (ha.2 b hb.1)
  have hid : a.attestationId = b.attestationId :=
    congrArg (fun stamp => (ofLex stamp).2) hstamp
  exact List.inj_on_of_nodup_map hids ha.1 hb.1 hid

/-- Neither the rows of other dimensions nor the order of the list is read. -/
theorem resolveGrant_congr (hperm : (matching rows).Perm (matching rows'))
    (hids : ((matching rows).map Attestation.attestationId).Nodup) :
    resolveGrant rows = resolveGrant rows' := by
  by_cases hnil : matching rows = []
  · rw [hnil] at hperm
    rw [resolveGrant_nil hnil, resolveGrant_nil hperm.nil_eq.symm]
  · have hnil' : matching rows' ≠ [] := fun h => hnil (h ▸ hperm).eq_nil
    obtain ⟨a, ha, heq⟩ := resolveGrant_eq hnil
    obtain ⟨b, hb, heq'⟩ := resolveGrant_eq hnil'
    have hb' : Newest rows b :=
      ⟨hperm.mem_iff.mpr hb.1, fun c hc => hb.2 c (hperm.mem_iff.mp hc)⟩
    rw [heq, heq', newest_unique hids ha hb']

/-! ## Emission -/

theorem recant_stops_emission :
    (∀ (rows : List Attestation) (config : ConsentConfig), Retracted rows →
      ∃ since, resolveConsent (resolveGrant rows) config = .withdrawn since) ∧
    (∀ (client : CaptureClient) (env : Env) (store : PartialTraceStore) (event : InboundEvent)
      (keyId : String) (rows : List Attestation) (trace : CompleteTrace),
      client.consentAttestingKeyId = some keyId → env.dir keyId = .ok rows → Retracted rows →
      (store.capture event event.thoughtId).2 = .sealed trace →
      (client.prepareForSeal env store event).2 =
        .ok (.notSealing (.consentBlocked "withdrawn"))) ∧
    (∀ (rows rows' : List Attestation) (config : ConsentConfig),
      (matching rows).Perm (matching rows') →
      ((matching rows).map Attestation.attestationId).Nodup →
      resolveConsent (resolveGrant rows) config = resolveConsent (resolveGrant rows') config) := by
  refine ⟨fun rows config h => ?_, ?_, fun rows rows' config hperm hids => ?_⟩
  · obtain ⟨since, hgrant⟩ := resolveGrant_of_retracted h
    rw [hgrant]
    exact ⟨since, rfl⟩
  · intro client env store event keyId rows trace hkey hdir h hseal
    simp only [CaptureClient.prepareForSeal, hseal]
    exact gateSeal_of_retracted hkey hdir h
  · rw [resolveGrant_congr hperm hids]

/-- A row of the consent dimension. -/
def consentRow (id type : String) (assertedAt : Int) : Attestation :=
  ⟨id, type, assertedAt, .obj [("dimension", .str consentDimension)]⟩

/-- A client that asks for the consent of `alice`, and has operator config to fall back on. -/
def client : CaptureClient where
  traceLevel := "generic"
  traceSchemaVersion := "2.7.9"
  correlation := none
  deploymentProfile := none
  consentAttestingKeyId := some "alice"
  consentConfig := ⟨some "2026-01-01T00:00:00Z"⟩

/-- What `alice` has on file: a grant, a recant, and a row of another dimension after it. -/
def recanted : List Attestation :=
  [consentRow "1" "scores" 0,
    ⟨"3", "scores", 20, .obj [("dimension", .str "accord:alignment:v1")]⟩,
    consentRow "2" "recants" 10]

def action : InboundEvent where
  eventType := "ACTION_RESULT"
  thoughtId := "t"
  taskId := none
  agentIdHash := "a"
  timestamp := "2026-01-01T00:00:00Z"
  traceLevel := none
  data := .null

theorem recant_stops_emission_alice :
    (∃ since, resolveConsent (resolveGrant recanted) client.consentConfig = .withdrawn since) ∧
    (client.prepareForSeal ⟨fun _ => .ok recanted, 0, fun _ => ""⟩ .new action).2 =
      .ok (.notSealing (.consentBlocked "withdrawn")) ∧
    resolveConsent (resolveGrant recanted) client.consentConfig =
      resolveConsent (resolveGrant (matching recanted).reverse) client.consentConfig :=
  ⟨recant_stops_emission.1 recanted _ (by decide),
    recant_stops_emission.2.1 client _ .new action "alice" recanted _ rfl rfl (by decide) rfl,
    recant_stops_emission.2.2 recanted _ _ (by decide) (by decide)⟩

/-- A recant and a grant of one instant: the greater id decides. -/
def tied : List Attestation := [consentRow "1" "recants" 10, consentRow "2" "scores" 10]

/-- No grant is later than the recant, and still emission goes on. -/
theorem grant_outlives_recant :
    (∃ a ∈ matching tied, a.Retracts ∧ ∀ b ∈ matching tied,
      b.attestationType = "scores" ∨ b.attestationType = "supersedes" →
        b.assertedAt ≤ a.assertedAt) ∧
    resolveConsent (resolveGrant tied) client.consentConfig = .cegGrant 10 := by
  decide

end CirisServer.Consent
