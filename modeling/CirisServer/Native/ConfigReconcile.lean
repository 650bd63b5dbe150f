import CirisServer.Native.GraphConfig

/-!
# The config reconciler

`src/config_reconcile.rs`: on every tick the reconciler resolves the node's knobs from
the config plane and publishes the result if it differs from what is published.

`resolve` reads the plane three times: one snapshot for the scalar knobs, and one more
read for each of the two list knobs. A stored float is finite, so a double is a rational
number here and `is_finite` is always true of it.
-/

namespace CirisServer

/-! ## Defaults -/

def defaultTransportNode : Bool := true
def defaultStoreAndForward : Bool := true
def defaultScorerCadenceSecs : UInt64 := 60
def defaultScorerWindow : Int64 := 500
def defaultScorerSampleGate : UInt32 := 20
def defaultScorerTargetNEff : ℚ := 9 / 2
def defaultScorerMinFeatureDim : UInt32 := 4
def defaultScorerNEffFloor : ℚ := 1
def defaultScorerActiveLookbackDays : Int64 := 30
def defaultReplicationReconcileSecs : UInt64 := 30
def defaultRetentionCadenceSecs : UInt64 := 3600
def defaultRetentionMaxAgeDays : UInt32 := 90
def defaultRetentionMaxDiskGb : UInt64 := 0
def defaultRetentionAuditLogMaxAgeDays : UInt32 := 0
def defaultMode : String := "server"
def defaultListenAddr : String := "0.0.0.0:4242"
def defaultRadioFrequencyHz : UInt32 := 915000000
def defaultRadioBandwidthHz : UInt32 := 125000
def defaultRadioSf : UInt8 := 7
def defaultRadioCr : UInt8 := 5
def defaultRadioTxPowerDbm : UInt8 := 17

/-- `scorer::n_eff::FEATURE_DIM`. -/
def featureDim : Int64 := 11

/-! ## Keys -/

def keyTransportNode : String := "transport.node"
def keyStoreAndForward : String := "transport.store_and_forward"
def keyScorerCadenceSecs : String := "scorer.cadence_secs"
def keyScorerWindow : String := "scorer.window"
def keyScorerSampleGate : String := "scorer.sample_gate"
def keyScorerTargetNEff : String := "scorer.target_n_eff"
def keyScorerMinFeatureDim : String := "scorer.min_feature_dim"
def keyScorerNEffFloor : String := "scorer.n_eff_floor"
def keyScorerActiveLookbackDays : String := "scorer.active_lookback_days"
def keyReplicationReconcileSecs : String := "replication.reconcile_secs"
def keyRetentionCadenceSecs : String := "retention.cadence_secs"
def keyRetentionMaxAgeDays : String := "retention.max_age_days"
def keyRetentionMaxDiskGb : String := "retention.max_disk_gb"
def keyRetentionAuditLogMaxAgeDays : String := "retention.audit_log_max_age_days"
def keyMode : String := "mode"
def keyListenAddr : String := "net.listen_addr"
def keyBootstrapPeers : String := "net.bootstrap_peers"
def keyAnnounceOwnership : String := "net.announce_ownership"
def keyRadioEnabled : String := "net.radio.enabled"
def keyRadioSerialPort : String := "net.radio.serial_port"
def keyRadioFrequency : String := "net.radio.frequency_hz"
def keyRadioBandwidth : String := "net.radio.bandwidth_hz"
def keyRadioSf : String := "net.radio.spreading_factor"
def keyRadioCr : String := "net.radio.coding_rate"
def keyRadioTxpower : String := "net.radio.tx_power_dbm"
def keyNodeAlias : String := "node.alias"
def keyAdminKeyIds : String := "auth.admin_key_ids"
def keyOauthCallbackBaseUrl : String := "auth.oauth_callback_base_url"

/-- The resolved configuration. -/
structure ResolvedConfig where
  transportNode : Bool
  storeAndForward : Bool
  scorerCadenceSecs : UInt64
  scorerWindow : Int64
  scorerSampleGate : UInt32
  scorerTargetNEff : ℚ
  scorerMinFeatureDim : UInt32
  scorerNEffFloor : ℚ
  scorerActiveLookbackDays : Int64
  replicationReconcileSecs : UInt64
  retentionCadenceSecs : UInt64
  retentionMaxAgeDays : UInt32
  retentionMaxDiskGb : UInt64
  retentionAuditLogMaxAgeDays : UInt32
  mode : String
  listenAddr : String
  bootstrapPeers : List String
  announceOwnership : Bool
  nodeAlias : String
  adminKeyIds : List String
  oauthCallbackBaseUrl : String
  radioEnabled : Bool
  radioSerialPort : String
  radioFrequencyHz : UInt32
  radioBandwidthHz : UInt32
  radioSpreadingFactor : UInt8
  radioCodingRate : UInt8
  radioTxPowerDbm : UInt8
deriving DecidableEq

/-- `ResolvedConfig::default`: the baked defaults. -/
def ResolvedConfig.default : ResolvedConfig where
  transportNode := defaultTransportNode
  storeAndForward := defaultStoreAndForward
  scorerCadenceSecs := defaultScorerCadenceSecs
  scorerWindow := defaultScorerWindow
  scorerSampleGate := defaultScorerSampleGate
  scorerTargetNEff := defaultScorerTargetNEff
  scorerMinFeatureDim := defaultScorerMinFeatureDim
  scorerNEffFloor := defaultScorerNEffFloor
  scorerActiveLookbackDays := defaultScorerActiveLookbackDays
  replicationReconcileSecs := defaultReplicationReconcileSecs
  retentionCadenceSecs := defaultRetentionCadenceSecs
  retentionMaxAgeDays := defaultRetentionMaxAgeDays
  retentionMaxDiskGb := defaultRetentionMaxDiskGb
  retentionAuditLogMaxAgeDays := defaultRetentionAuditLogMaxAgeDays
  mode := defaultMode
  listenAddr := defaultListenAddr
  bootstrapPeers := []
  announceOwnership := false
  nodeAlias := ""
  adminKeyIds := []
  oauthCallbackBaseUrl := ""
  radioEnabled := false
  radioSerialPort := ""
  radioFrequencyHz := defaultRadioFrequencyHz
  radioBandwidthHz := defaultRadioBandwidthHz
  radioSpreadingFactor := defaultRadioSf
  radioCodingRate := defaultRadioCr
  radioTxPowerDbm := defaultRadioTxPowerDbm

/-! ## Reading one knob -/

/-- `n as u32` of an `i64`: the low 32 bits. -/
def i64AsU32 (n : Int64) : UInt32 := n.toUInt64.toUInt32

/-- `n as u8` of an `i64`: the low 8 bits. -/
def i64AsU8 (n : Int64) : UInt8 := n.toUInt64.toUInt8

/-- `u32::MAX as i64`. -/
def u32MaxAsI64 : Int64 := 4294967295

/-- A cadence: a positive number of seconds. -/
def cadenceKnob (v : Option Int64) (d : UInt64) : UInt64 :=
  ((v.filter fun s => 0 < s).map Int64.toUInt64).getD d

/-- An `i64` within bounds. -/
def i64Knob (lo hi : Int64) (v : Option Int64) (d : Int64) : Int64 :=
  (v.filter fun n => lo ≤ n ∧ n ≤ hi).getD d

/-- A `u32` read from an `i64` within bounds. -/
def u32Knob (lo hi : Int64) (v : Option Int64) (d : UInt32) : UInt32 :=
  ((v.filter fun n => lo ≤ n ∧ n ≤ hi).map i64AsU32).getD d

/-- `radio_u32`. It has no upper bound: the cast wraps. -/
def radioU32 (v : Option Int64) (dflt : UInt32) : UInt32 :=
  ((v.filter fun n => 0 < n).map i64AsU32).getD dflt

/-- `radio_u8`. -/
def radioU8 (v : Option Int64) (dflt : UInt8) : UInt8 :=
  ((v.filter fun n => 0 < n ∧ n ≤ 255).map i64AsU8).getD dflt

/-- The Unicode `White_Space` characters, which `str::trim` strips. -/
def isWhiteSpace (c : Char) : Bool :=
  (0x9 ≤ c.toNat && c.toNat ≤ 0xd) || c.toNat == 0x20 || c.toNat == 0x85 || c.toNat == 0xa0 ||
    c.toNat == 0x1680 || (0x2000 ≤ c.toNat && c.toNat ≤ 0x200a) || c.toNat == 0x2028 ||
    c.toNat == 0x2029 || c.toNat == 0x202f || c.toNat == 0x205f || c.toNat == 0x3000

/-- A text that is not blank. -/
def textKnob (v : Option String) (d : String) : String :=
  (v.filter fun s => !s.toList.all isWhiteSpace).getD d

/-- The band's floor and target. A target at or below the floor falls back to both
    defaults. -/
def nEffBand (floor target : ℚ) : ℚ × ℚ :=
  if floor < target then (floor, target) else (defaultScorerNEffFloor, defaultScorerTargetNEff)

/-! ## Resolving -/

/-- The scalar knobs of one snapshot, or of a failed read; the lists stay empty. -/
def ResolvedConfig.ofSnapshot (snap : Option ConfigSnapshot) : ResolvedConfig :=
  let d := ResolvedConfig.default
  let band := nEffBand
    (((snap.bind (·.f64 keyScorerNEffFloor)).filter fun f => 0 ≤ f).getD d.scorerNEffFloor)
    (((snap.bind (·.f64 keyScorerTargetNEff)).filter fun t => 0 < t).getD d.scorerTargetNEff)
  { transportNode := (snap.bind (·.bool keyTransportNode)).getD d.transportNode
    storeAndForward := (snap.bind (·.bool keyStoreAndForward)).getD d.storeAndForward
    scorerCadenceSecs := cadenceKnob (snap.bind (·.i64 keyScorerCadenceSecs)) d.scorerCadenceSecs
    scorerWindow := i64Knob 1 10000 (snap.bind (·.i64 keyScorerWindow)) d.scorerWindow
    scorerSampleGate :=
      u32Knob 0 u32MaxAsI64 (snap.bind (·.i64 keyScorerSampleGate)) d.scorerSampleGate
    scorerTargetNEff := band.2
    scorerMinFeatureDim :=
      u32Knob 1 featureDim (snap.bind (·.i64 keyScorerMinFeatureDim)) d.scorerMinFeatureDim
    scorerNEffFloor := band.1
    scorerActiveLookbackDays :=
      i64Knob 1 3650 (snap.bind (·.i64 keyScorerActiveLookbackDays)) d.scorerActiveLookbackDays
    replicationReconcileSecs :=
      cadenceKnob (snap.bind (·.i64 keyReplicationReconcileSecs)) d.replicationReconcileSecs
    retentionCadenceSecs :=
      cadenceKnob (snap.bind (·.i64 keyRetentionCadenceSecs)) d.retentionCadenceSecs
    -- the bounds accept 0, which means unbounded
    retentionMaxAgeDays :=
      u32Knob 0 u32MaxAsI64 (snap.bind (·.i64 keyRetentionMaxAgeDays)) d.retentionMaxAgeDays
    retentionMaxDiskGb :=
      (((snap.bind (·.i64 keyRetentionMaxDiskGb)).filter fun g => 0 ≤ g).map
        Int64.toUInt64).getD d.retentionMaxDiskGb
    retentionAuditLogMaxAgeDays :=
      u32Knob 0 u32MaxAsI64 (snap.bind (·.i64 keyRetentionAuditLogMaxAgeDays))
        d.retentionAuditLogMaxAgeDays
    mode := textKnob (snap.bind (·.str keyMode)) d.mode
    listenAddr := textKnob (snap.bind (·.str keyListenAddr)) d.listenAddr
    bootstrapPeers := d.bootstrapPeers
    announceOwnership := (snap.bind (·.bool keyAnnounceOwnership)).getD d.announceOwnership
    nodeAlias := (snap.bind (·.str keyNodeAlias)).getD d.nodeAlias
    adminKeyIds := d.adminKeyIds
    oauthCallbackBaseUrl :=
      (snap.bind (·.str keyOauthCallbackBaseUrl)).getD d.oauthCallbackBaseUrl
    radioEnabled := (snap.bind (·.bool keyRadioEnabled)).getD d.radioEnabled
    radioSerialPort := textKnob (snap.bind (·.str keyRadioSerialPort)) d.radioSerialPort
    radioFrequencyHz := radioU32 (snap.bind (·.i64 keyRadioFrequency)) d.radioFrequencyHz
    radioBandwidthHz := radioU32 (snap.bind (·.i64 keyRadioBandwidth)) d.radioBandwidthHz
    radioSpreadingFactor := radioU8 (snap.bind (·.i64 keyRadioSf)) d.radioSpreadingFactor
    radioCodingRate := radioU8 (snap.bind (·.i64 keyRadioCr)) d.radioCodingRate
    radioTxPowerDbm := radioU8 (snap.bind (·.i64 keyRadioTxpower)) d.radioTxPowerDbm }

/-- What the plane answers to the three reads of one `resolve`. -/
structure PlaneReads where
  snapshot : Except ConfigError ConfigSnapshot
  bootstrapPeers : Except ConfigError ConfigSnapshot
  adminKeyIds : Except ConfigError ConfigSnapshot

/-- `get_str_list`; a failed read counts as a missing list. -/
def listKnob (jsonText : Json → String) (read : Except ConfigError ConfigSnapshot) (key : String)
    (d : List String) : List String :=
  (read.toOption.bind fun snap => snap.strList jsonText key).getD d

/-- `resolve`. -/
def resolve (jsonText : Json → String) (reads : PlaneReads) : ResolvedConfig :=
  { ResolvedConfig.ofSnapshot reads.snapshot.toOption with
    bootstrapPeers := listKnob jsonText reads.bootstrapPeers keyBootstrapPeers
      ResolvedConfig.default.bootstrapPeers
    adminKeyIds := listKnob jsonText reads.adminKeyIds keyAdminKeyIds
      ResolvedConfig.default.adminKeyIds }

/-- `replication_reconcile_interval`, in seconds. -/
def ResolvedConfig.replicationReconcileInterval (r : ResolvedConfig) : UInt64 :=
  if r.replicationReconcileSecs = 0 then defaultReplicationReconcileSecs
  else r.replicationReconcileSecs

/-- `scorer_cadence`, in seconds. -/
def ResolvedConfig.scorerCadence (r : ResolvedConfig) : UInt64 :=
  if r.scorerCadenceSecs = 0 then defaultScorerCadenceSecs else r.scorerCadenceSecs

/-- `retention_cadence`, in seconds: zero would spin, so it is the default. -/
def ResolvedConfig.retentionCadence (r : ResolvedConfig) : UInt64 :=
  if r.retentionCadenceSecs = 0 then defaultRetentionCadenceSecs else r.retentionCadenceSecs

/-! ## The loop -/

/-- `send_if_modified`. -/
def sendIfModified (current resolved : ResolvedConfig) : ResolvedConfig :=
  if current ≠ resolved then resolved else current

/-- What makes the loop resolve: its cadence, or the config API's nudge. -/
inductive Wake where
  | cadence
  | nudged
deriving DecidableEq

/-- One event of the loop. A closed shutdown channel reads as a shutdown. -/
inductive ReconcilerEvent where
  | tick (wake : Wake) (reads : PlaneReads)
  | shutdownChanged (closed value : Bool)

/-- The reconciler: the published snapshot, and whether the loop still runs. -/
structure Reconciler where
  published : ResolvedConfig
  running : Bool
deriving DecidableEq

/-- One turn of `spawn`'s loop. -/
def Reconciler.step (jsonText : Json → String) (s : Reconciler) (event : ReconcilerEvent) :
    Reconciler :=
  if s.running then
    match event with
    | .tick _ reads => { s with published := sendIfModified s.published (resolve jsonText reads) }
    | .shutdownChanged closed value => if closed || value then { s with running := false } else s
  else s

/-- What is published after a tick is what the tick resolved. -/
theorem sendIfModified_eq (current resolved : ResolvedConfig) :
    sendIfModified current resolved = resolved := by
  unfold sendIfModified
  by_cases h : current = resolved
  · rw [if_neg (not_not_intro h)]
    exact h
  · exact if_pos h

/-- A failed snapshot read gives every scalar knob its default. -/
theorem ofSnapshot_none : ResolvedConfig.ofSnapshot none = .default := by
  have hband : nEffBand defaultScorerNEffFloor defaultScorerTargetNEff =
      (defaultScorerNEffFloor, defaultScorerTargetNEff) :=
    ite_self _
  simp [ResolvedConfig.ofSnapshot, ResolvedConfig.default, hband, cadenceKnob, i64Knob, u32Knob,
    radioU32, radioU8, textKnob]

end CirisServer
