import Kubpf.Lib.PromClient
import Kubpf.Lib.Rounding
import Kubpf.Agent.Mirror

/-!
# The registry

Setting a gauge goes a long way in the source: the subsystem is looked up by name,
the gauge vector in the subsystem, the gauge in the vector by its labels, and the
counter becomes a `float64`. Any of the lookups would panic if it failed. The last
one is the client library's, which is a parameter here (`PromClient`): what is
used of it is what its documentation says, and the registry may have been anything
before, as long as nobody has taken the agent's names.

The rest of the model skips all this and keeps one map from series to the value
last set. That is justified here: from the vectors `registerPrometheusMetrics`
makes, no sequence of calls panics, and what is gathered under the agent's names
is that map, rounded.
-/

namespace Kubpf.Agent

open Lib

/-- `float64(value)`: 53 significant bits. -/
def float64 (value : UInt64) : Nat := roundEven 53 value.toNat

/-! ## Subsystems -/

/-- `PromSubsystem`: the vector of each gauge. -/
structure PromSubsystem (client : PromClient Nat) where
  subsystem : String
  gauges : Finmap (fun _ : String => client.GaugeVec)

/-- The client, and `agent.promSubsystems`. -/
structure Prom (client : PromClient Nat) where
  state : client.State
  promSubsystems : Finmap (fun _ : String => PromSubsystem client)

/-- What the three `RegisterPrometheus` differ in. -/
structure PromFamily where
  subsystem : String
  /-- The names of the gauges, each with its help. -/
  metrics : List (String × String)
  labelNames : List String

def podSvcPromHelp : List String :=
  ["pod to service bytes", "pod to service packets", "service to pod bytes",
    "service to pod packets"]

def svcPromHelp : List String :=
  ["service egress bytes", "service egress packets", "service ingress bytes",
    "service ingress packets"]

def podPromHelp : List String :=
  ["pod egress bytes", "pod egress packets", "pod ingress bytes", "pod ingress packets"]

/-- `NewPodSvcPromSubsystemEntry` and its `RegisterPrometheus`. -/
def podSvcFamily : PromFamily where
  subsystem := "pod_svc_stats"
  metrics := podSvcPromMetrics.zip podSvcPromHelp
  labelNames := ["pod_namespace", "pod_name", "svc_namespace", "svc_name", "svc_scope"]

/-- `NewSvcPromSubsystemEntry` and its `RegisterPrometheus`. -/
def svcFamily : PromFamily where
  subsystem := "svc_stats"
  metrics := svcPromMetrics.zip svcPromHelp
  labelNames := ["svc_namespace", "svc_name", "svc_scope"]

/-- `NewPodPromSubsystemEntry` and its `RegisterPrometheus`. -/
def podFamily : PromFamily where
  subsystem := "pod_stats"
  metrics := podPromMetrics.zip podPromHelp
  labelNames := ["pod_namespace", "pod_name"]

/-- The `GaugeOpts` and label names a gauge of the family is made with. -/
def PromFamily.desc (family : PromFamily) (metric : String × String) : GaugeDesc where
  opts :=
    { ns := "statsagent", subsystem := family.subsystem, name := metric.1, help := metric.2 }
  labelNames := family.labelNames

section Client

variable {client : PromClient Nat}

/-! ## Registering -/

/-- One round of the loop of `RegisterPrometheus`. A refusal is only logged, and the vector is
used all the same. -/
def registerGauge (family : PromFamily) (s : client.State × PromSubsystem client)
    (metric : String × String) : client.State × PromSubsystem client :=
  let d := family.desc metric
  let (gauge, state) := client.newGaugeVec d.opts d.labelNames s.1
  ((client.register gauge state).2, { s.2 with gauges := s.2.gauges.insert metric.1 gauge })

/-- `registerPrometheusSubsystem`: the entry is filed under its name and fills its gauges. -/
def Prom.registerPrometheusSubsystem (prom : Prom client) (family : PromFamily) : Prom client :=
  let s := family.metrics.foldl (registerGauge family)
    (prom.state, { subsystem := family.subsystem, gauges := ∅ })
  { state := s.1, promSubsystems := prom.promSubsystems.insert family.subsystem s.2 }

/-- `registerPrometheusMetrics`. -/
def Prom.registerPrometheusMetrics (prom : Prom client) : Prom client :=
  ((prom.registerPrometheusSubsystem podSvcFamily).registerPrometheusSubsystem svcFamily
    ).registerPrometheusSubsystem podFamily

/-- A new agent with its metrics registered, the client being in this state before. -/
def registeredProm (client : PromClient Nat) (state : client.State) : Prom client :=
  ({ state := state, promSubsystems := ∅ } : Prom client).registerPrometheusMetrics

/-! ## Setting -/

/-- `agent.promSubsystems[subsystem].GetGaugeVec(name)`; `none` is a panic, of a nil interface or
a nil gauge. -/
def Prom.getGaugeVec (prom : Prom client) (subsystem name : String) : Option client.GaugeVec :=
  match prom.promSubsystems.lookup subsystem with
  | none => none
  | some entry => entry.gauges.lookup name

/-- `With(labels).Set(float64(value))` on that vector; `none` is a panic. -/
def Prom.setGauge (prom : Prom client) (subsystem name : String)
    (labels : List (String × String)) (value : UInt64) : Option (Prom client) :=
  match prom.getGaugeVec subsystem name with
  | none => none
  | some vec =>
    (client.withSet vec (labelsOf labels) (float64 value) prom.state).map fun state =>
      { prom with state := state }

/-- The loop over the four gauges. -/
def Prom.setGauges (prom : Prom client) (subsystem : String) (names : List String)
    (labels : List (String × String)) (values : List UInt64) : Option (Prom client) :=
  (names.zip values).foldlM (fun prom nv => prom.setGauge subsystem nv.1 labels nv.2) prom

/-- `SetPodGauge`. -/
def Prom.setPodGauge (prom : Prom client) (key : PromMetricsKey) (stats : FlowStats) :
    Option (Prom client) :=
  if key.metricName ≠ .podStats then some prom
  else
    prom.setGauges "pod_stats" podPromMetrics key.podLabels
      [stats.outBytes, stats.outPackets, stats.inBytes, stats.inPackets]

/-- `SetSvcGauge`. -/
def Prom.setSvcGauge (prom : Prom client) (key : PromMetricsKey) (stats : FlowStats) :
    Option (Prom client) :=
  if key.metricName ≠ .svcStats then some prom
  else
    prom.setGauges "svc_stats" svcPromMetrics key.svcLabels
      [stats.outBytes, stats.outPackets, stats.inBytes, stats.inPackets]

/-- `SetPodSvcGauge`. -/
def Prom.setPodSvcGauge (prom : Prom client) (key : PromMetricsKey) (stats : FlowStats) :
    Option (Prom client) :=
  let labels := key.podLabels ++ key.svcLabels
  if key.metricName = .svcPodStats then
    prom.setGauges "pod_svc_stats" podSvcPromMetrics labels
      [stats.inBytes, stats.inPackets, stats.outBytes, stats.outPackets]
  else if key.metricName ≠ .podSvcStats then some prom
  else
    prom.setGauges "pod_svc_stats" podSvcPromMetrics labels
      [stats.outBytes, stats.outPackets, stats.inBytes, stats.inPackets]

/-- The same by the table whose entry is published. -/
def Prom.publish (prom : Prom client) : Table → PromMetricsKey → FlowStats → Option (Prom client)
  | .pod => prom.setPodGauge
  | .svc => prom.setSvcGauge
  | .known => prom.setPodSvcGauge

/-! ## The vectors of a family -/

/-- The family of a table's gauges. -/
def Table.family : Table → PromFamily
  | .pod => podFamily
  | .svc => svcFamily
  | .known => podSvcFamily

/-- The name a table's gauge is served under. -/
def Table.fqName (client : PromClient Nat) (T : Table) (name : String) : String :=
  client.buildFQName "statsagent" T.subsystem name

section Family

variable {T T' : Table} {metric metric' : String × String}

theorem mem_gaugeNames_iff {name : String} :
    name ∈ T.gaugeNames ↔ ∃ metric ∈ T.family.metrics, metric.1 = name := by
  rw [← List.mem_map]
  cases T <;> rfl

theorem nodup_metrics (T : Table) : (T.family.metrics.map Prod.fst).Nodup := by
  cases T <;> decide

/-- The families' names leave no doubt about what the library makes of them. -/
theorem plain_desc (h : metric ∈ T.family.metrics) : (T.family.desc metric).Plain := by
  have hall : ∀ T : Table, ∀ metric ∈ T.family.metrics,
      PlainName metric.1 ∧ PlainName T.family.subsystem ∧
        (∀ l ∈ T.family.labelNames, PlainName l) ∧ T.family.labelNames.Nodup := by
    intro T
    cases T <;> decide +kernel
  obtain ⟨hname, hsub, hlabels, hnd⟩ := hall T metric h
  exact ⟨(by decide +kernel : PlainName "statsagent"), hsub, hname, hlabels, hnd⟩

/-- **`With` is given the labels the vector was made with**, in the order of the literal. -/
theorem perm_labels (T : Table) (key : PromMetricsKey) :
    ((T.labels key).map Prod.fst).Perm T.family.labelNames := by
  cases T with
  | pod => exact (by decide : ["pod_namespace", "pod_name"].Perm ["pod_namespace", "pod_name"])
  | svc =>
      exact (by decide : ["svc_namespace", "svc_scope", "svc_name"].Perm
        ["svc_namespace", "svc_name", "svc_scope"])
  | known =>
      exact (by decide :
        ["pod_namespace", "pod_name", "svc_namespace", "svc_scope", "svc_name"].Perm
          ["pod_namespace", "pod_name", "svc_namespace", "svc_name", "svc_scope"])

theorem keys_labels (T : Table) (key : PromMetricsKey) :
    (labelsOf (T.labels key)).keys = T.family.labelNames.toFinset := by
  ext name
  rw [mem_keys_labelsOf, (perm_labels T key).mem_iff, List.mem_toFinset]

theorem nodup_labelNames (T : Table) : T.family.labelNames.Nodup := by
  cases T <;> decide

/-- Two keys have the same labels if they have the same map of labels. -/
theorem labels_eq_of_labelsOf {key key' : PromMetricsKey}
    (h : labelsOf (T.labels key) = labelsOf (T.labels key')) : T.labels key = T.labels key' := by
  refine labelsOf_inj ((perm_labels T key).nodup_iff.mpr (nodup_labelNames T)) ?_ h
  cases T <;> rfl

theorem subsystem_family (T : Table) : T.family.subsystem = T.subsystem := by
  cases T <;> rfl

/-- The name is the parts joined by underscores. -/
theorem fqName_eq (hdoc : client.Documented) {name : String} (h : name ∈ T.gaugeNames) :
    T.fqName client name = "statsagent" ++ "_" ++ T.subsystem ++ "_" ++ name := by
  obtain ⟨metric, hmetric, rfl⟩ := mem_gaugeNames_iff.mp h
  have hplain := plain_desc hmetric
  refine hdoc.joins (ne_empty_of_plainName hplain.ns) ?_ (ne_empty_of_plainName hplain.name)
  rw [← subsystem_family]
  exact ne_empty_of_plainName hplain.subsystem

theorem fqName_desc (T : Table) (metric : String × String) :
    client.fqName (T.family.desc metric) = T.fqName client metric.1 := by
  cases T <;> rfl

/-- Vectors of different gauges are made differently. -/
theorem desc_inj (h : T.family.desc metric = T'.family.desc metric') : T = T' ∧ metric = metric' := by
  obtain ⟨hopts, -⟩ := GaugeDesc.mk.inj h
  obtain ⟨-, hsub, hname, hhelp⟩ := GaugeOpts.mk.inj hopts
  rw [subsystem_family, subsystem_family] at hsub
  exact ⟨subsystem_injective hsub, Prod.ext hname hhelp⟩

/-- **The twelve gauges have twelve names.** -/
theorem fqName_inj (hdoc : client.Documented) {name name' : String} (h : name ∈ T.gaugeNames)
    (h' : name' ∈ T'.gaugeNames) (heq : T.fqName client name = T'.fqName client name') :
    T = T' ∧ name = name' := by
  have hall : ∀ T T' : Table, ∀ name ∈ T.gaugeNames, ∀ name' ∈ T'.gaugeNames,
      "statsagent" ++ "_" ++ T.subsystem ++ "_" ++ name
        = "statsagent" ++ "_" ++ T'.subsystem ++ "_" ++ name' → T = T' ∧ name = name' := by
    intro T T'
    cases T <;> cases T' <;> decide +kernel
  refine hall T T' name h name' h' ?_
  rw [← fqName_eq hdoc h, ← fqName_eq hdoc h']
  exact heq

end Family

/-! ## What is registered -/

/-- The vector is made and registered, and has no gauges. -/
structure Blank (state : client.State) (vec : client.GaugeVec) (d : GaugeDesc) : Prop where
  desc : client.desc state vec = some d
  registered : vec ∈ client.registered state
  empty : ∀ labels, client.gauge state vec labels = none

/-- One round of the loop registers one vector more, under a name that was free. -/
theorem registerGauge_eq (hdoc : client.Documented) {family : PromFamily}
    {metric : String × String} (hplain : (family.desc metric).Plain)
    (s : client.State × PromSubsystem client)
    (hfree : client.fqName (family.desc metric) ∉ client.names s.1) :
    ∃ state vec, registerGauge family s metric
        = (state, { s.2 with gauges := s.2.gauges.insert metric.1 vec }) ∧
      Blank state vec (family.desc metric) ∧
      (∀ vec' d, Blank s.1 vec' d → Blank state vec' d) ∧
      client.names state = insert (client.fqName (family.desc metric)) (client.names s.1) := by
  obtain ⟨⟨vec, made⟩, hmade⟩ : ∃ r, r = client.newGaugeVec (family.desc metric).opts
      (family.desc metric).labelNames s.1 := ⟨_, rfl⟩
  obtain ⟨hfresh, hdesc, hempty, hothers, hreg, hnames⟩ := hdoc.makes hmade.symm
  obtain ⟨state, hregister, hdesc', hgauge', hreg', hnames'⟩ :=
    hdoc.registers hdesc hplain (by rw [hnames]; exact hfree)
  refine ⟨state, vec, ?_, ⟨?_, ?_, ?_⟩, ?_, ?_⟩
  · rw [registerGauge, ← hmade]
    dsimp only
    rw [hregister]
  · rw [hdesc']
    exact hdesc
  · rw [hreg']
    exact Set.mem_insert ..
  · rw [hgauge']
    exact hempty
  · intro vec' d h
    -- the new vector is not one of those there were
    have hne : vec' ≠ vec := by
      rintro rfl
      exact Option.some_ne_none d (h.desc.symm.trans hfresh)
    obtain ⟨hsame, hsame'⟩ := hothers vec' hne
    refine ⟨?_, ?_, ?_⟩
    · rw [hdesc', hsame]
      exact h.desc
    · rw [hreg', hreg]
      exact Set.mem_insert_of_mem _ h.registered
    · rw [hgauge', hsame']
      exact h.empty
  · rw [hnames', hnames]

/-- The loop registers a vector for each gauge of the family. -/
theorem registerGauges_spec (hdoc : client.Documented) {family : PromFamily}
    {metrics : List (String × String)} (hplain : ∀ m ∈ metrics, (family.desc m).Plain)
    (hnd : (metrics.map fun m => client.fqName (family.desc m)).Nodup)
    (s : client.State × PromSubsystem client)
    (hfree : ∀ m ∈ metrics, client.fqName (family.desc m) ∉ client.names s.1) :
    (∀ m ∈ metrics, ∃ vec, (metrics.foldl (registerGauge family) s).2.gauges.lookup m.1 = some vec ∧
      Blank (metrics.foldl (registerGauge family) s).1 vec (family.desc m)) ∧
    (∀ name ∉ metrics.map Prod.fst,
      (metrics.foldl (registerGauge family) s).2.gauges.lookup name = s.2.gauges.lookup name) ∧
    (∀ vec d, Blank s.1 vec d → Blank (metrics.foldl (registerGauge family) s).1 vec d) ∧
    ∀ name ∈ client.names (metrics.foldl (registerGauge family) s).1,
      name ∈ client.names s.1 ∨ ∃ m ∈ metrics, name = client.fqName (family.desc m) := by
  induction metrics generalizing s with
  | nil =>
      exact ⟨fun m hm => absurd hm List.not_mem_nil, fun _ _ => rfl, fun _ _ h => h,
        fun _ h => Or.inl h⟩
  | cons m ms ih =>
      rw [List.forall_mem_cons] at hplain hfree
      rw [List.map_cons, List.nodup_cons] at hnd
      obtain ⟨state, vec, hround, hblank, hkept, hnames⟩ :=
        registerGauge_eq hdoc hplain.1 s hfree.1
      have hfree' : ∀ m' ∈ ms, client.fqName (family.desc m') ∉ client.names state := by
        intro m' hm' hmem
        rw [hnames] at hmem
        rcases Set.mem_insert_iff.mp hmem with heq | hmem
        · exact hnd.1 (List.mem_map.mpr ⟨m', hm', heq⟩)
        · exact hfree.2 m' hm' hmem
      obtain ⟨hvecs, hlookup, hkept', hnames'⟩ := ih hplain.2 hnd.2
        (state, { s.2 with gauges := s.2.gauges.insert m.1 vec }) hfree'
      rw [List.foldl_cons, hround]
      refine ⟨?_, ?_, fun vec' d h => hkept' vec' d (hkept vec' d h), ?_⟩
      · rw [List.forall_mem_cons]
        refine ⟨⟨vec, ?_, hkept' _ _ hblank⟩, hvecs⟩
        rw [hlookup m.1 ?_]
        · exact Finmap.lookup_insert _
        · -- no later gauge has its name
          intro hmem
          obtain ⟨m', hm', hname⟩ := List.mem_map.mp hmem
          refine hnd.1 (List.mem_map.mpr ⟨m', hm', ?_⟩)
          show client.buildFQName _ _ _ = client.buildFQName _ _ _
          rw [PromFamily.desc, PromFamily.desc]
          dsimp only
          rw [hname]
      · intro name hname
        rw [List.map_cons, List.mem_cons, not_or] at hname
        rw [hlookup name hname.2]
        exact Finmap.lookup_insert_of_ne _ hname.1
      · intro name hmem
        rcases hnames' name hmem with hmem | ⟨m', hm', rfl⟩
        · dsimp only at hmem
          rw [hnames] at hmem
          rcases Set.mem_insert_iff.mp hmem with rfl | hmem
          · exact Or.inr ⟨m, List.mem_cons_self .., rfl⟩
          · exact Or.inl hmem
        · exact Or.inr ⟨m', List.mem_cons_of_mem _ hm', rfl⟩

/-- Every gauge of the table's family has a vector to find. -/
def Filed (prom : Prom client) (T : Table) : Prop :=
  ∀ m ∈ T.family.metrics, ∃ vec, prom.getGaugeVec T.subsystem m.1 = some vec ∧
    Blank prom.state vec (T.family.desc m)

theorem filed_registerPrometheusSubsystem (hdoc : client.Documented) (T : Table)
    (prom : Prom client)
    (hfree : ∀ name ∈ T.gaugeNames, T.fqName client name ∉ client.names prom.state) :
    Filed (prom.registerPrometheusSubsystem T.family) T ∧
    (∀ T', T' ≠ T → Filed prom T' → Filed (prom.registerPrometheusSubsystem T.family) T') ∧
    ∀ name ∈ client.names (prom.registerPrometheusSubsystem T.family).state,
      name ∈ client.names prom.state ∨ ∃ n ∈ T.gaugeNames, name = T.fqName client n := by
  have hnd : (T.family.metrics.map fun m => client.fqName (T.family.desc m)).Nodup := by
    refine (List.nodup_map_iff_inj_on (nodup_metrics T).of_map).mpr fun m hm m' hm' heq => ?_
    rw [fqName_desc, fqName_desc] at heq
    have hname := (fqName_inj hdoc (mem_gaugeNames_iff.mpr ⟨m, hm, rfl⟩)
      (mem_gaugeNames_iff.mpr ⟨m', hm', rfl⟩) heq).2
    exact List.inj_on_of_nodup_map (nodup_metrics T) hm hm' hname
  obtain ⟨hvecs, -, hkept, hnames⟩ := registerGauges_spec hdoc (fun m hm => plain_desc hm) hnd
    (prom.state, { subsystem := T.family.subsystem, gauges := ∅ }) fun m hm => by
      rw [fqName_desc]
      exact hfree m.1 (mem_gaugeNames_iff.mpr ⟨m, hm, rfl⟩)
  refine ⟨fun m hm => ?_, fun T' hne h m hm => ?_, fun name hmem => ?_⟩
  · obtain ⟨vec, hvec, hblank⟩ := hvecs m hm
    refine ⟨vec, ?_, hblank⟩
    rw [Prom.getGaugeVec, Prom.registerPrometheusSubsystem, subsystem_family,
      Finmap.lookup_insert]
    rw [subsystem_family] at hvec
    exact hvec
  · obtain ⟨vec, hvec, hblank⟩ := h m hm
    refine ⟨vec, ?_, hkept vec _ hblank⟩
    rw [Prom.getGaugeVec, Prom.registerPrometheusSubsystem, subsystem_family,
      Finmap.lookup_insert_of_ne _ fun heq => hne (subsystem_injective heq)]
    exact hvec
  · refine (hnames name hmem).imp_right ?_
    rintro ⟨m, hm, rfl⟩
    exact ⟨m.1, mem_gaugeNames_iff.mpr ⟨m, hm, rfl⟩, fqName_desc T m⟩

/-- Nobody has registered the agent's names. -/
def NamesFree (client : PromClient Nat) (state : client.State) : Prop :=
  ∀ (T : Table), ∀ name ∈ T.gaugeNames, T.fqName client name ∉ client.names state

/-- **`registerPrometheusMetrics` leaves a vector for every gauge.** -/
theorem filed_registeredProm (hdoc : client.Documented) {state : client.State}
    (hfree : NamesFree client state) (T : Table) : Filed (registeredProm client state) T := by
  obtain ⟨prom₀, hprom₀⟩ : ∃ prom, prom = ({ state := state, promSubsystems := ∅ } : Prom client) :=
    ⟨_, rfl⟩
  have hfree₀ : NamesFree client prom₀.state := by rw [hprom₀]; exact hfree
  -- the names of another family are still free
  have hstill : ∀ {T T' : Table} {prom prom' : Prom client}, T' ≠ T →
      (∀ name ∈ client.names prom'.state, name ∈ client.names prom.state ∨
        ∃ n ∈ T.gaugeNames, name = T.fqName client n) →
      (∀ name ∈ T'.gaugeNames, T'.fqName client name ∉ client.names prom.state) →
      ∀ name ∈ T'.gaugeNames, T'.fqName client name ∉ client.names prom'.state := by
    intro T T' prom prom' hne hnames hfree name hname hmem
    rcases hnames _ hmem with hmem | ⟨n, hn, heq⟩
    · exact hfree name hname hmem
    · exact hne (fqName_inj hdoc hname hn heq).1
  obtain ⟨hknown, -, hnames₁⟩ := filed_registerPrometheusSubsystem hdoc .known prom₀ (hfree₀ .known)
  obtain ⟨hsvc, hkept₂, hnames₂⟩ := filed_registerPrometheusSubsystem hdoc .svc
    (prom₀.registerPrometheusSubsystem podSvcFamily)
    (hstill (by decide) hnames₁ (hfree₀ .svc))
  obtain ⟨hpod, hkept₃, -⟩ := filed_registerPrometheusSubsystem hdoc .pod
    ((prom₀.registerPrometheusSubsystem podSvcFamily).registerPrometheusSubsystem svcFamily)
    (hstill (by decide) hnames₂ (hstill (by decide) hnames₁ (hfree₀ .pod)))
  rw [registeredProm, ← hprom₀]
  cases T with
  | known => exact hkept₃ .known (by decide) (hkept₂ .known (by decide) hknown)
  | svc => exact hkept₃ .svc (by decide) hsvc
  | pod => exact hpod

/-! ## The registry keeps up with the gauges -/

/-- A vector shows the series of one gauge. -/
structure VecShows (state : client.State) (T : Table) (metric : String × String) (gauges : Gauges)
    (vec : client.GaugeVec) : Prop where
  desc : client.desc state vec = some (T.family.desc metric)
  registered : vec ∈ client.registered state
  values : ∀ key, client.gauge state vec (labelsOf (T.labels key))
    = (gauges.lookup ⟨T.subsystem, metric.1, T.labels key⟩).map float64
  only : ∀ labels x, client.gauge state vec labels = some x →
    ∃ key, labels = labelsOf (T.labels key)

/-- Every gauge has its vector, and every vector shows its series. -/
def KeepsUp (prom : Prom client) (gauges : Gauges) : Prop :=
  ∀ T : Table, ∀ metric ∈ T.family.metrics, ∃ vec,
    prom.getGaugeVec T.subsystem metric.1 = some vec ∧ VecShows prom.state T metric gauges vec

theorem keepsUp_init (hdoc : client.Documented) {state : client.State}
    (hfree : NamesFree client state) : KeepsUp (registeredProm client state) ∅ := by
  intro T metric hmetric
  obtain ⟨vec, hvec, hblank⟩ := filed_registeredProm hdoc hfree T metric hmetric
  refine ⟨vec, hvec, hblank.desc, hblank.registered, fun key => ?_, fun labels x hx => ?_⟩
  · rw [hblank.empty, Finmap.lookup_empty, Option.map_none]
  · rw [hblank.empty] at hx
    cases hx

/-- **Setting one gauge does not panic**, and keeps up. -/
theorem KeepsUp.setGauge {prom : Prom client} {gauges : Gauges} (hdoc : client.Documented)
    (h : KeepsUp prom gauges) {T : Table} {name : String} (hname : name ∈ T.gaugeNames)
    (key : PromMetricsKey) (value : UInt64) :
    ∃ prom', prom.setGauge T.subsystem name (T.labels key) value = some prom' ∧
      KeepsUp prom' (gauges.insert ⟨T.subsystem, name, T.labels key⟩ value) := by
  obtain ⟨metric, hmetric, rfl⟩ := mem_gaugeNames_iff.mp hname
  obtain ⟨vec, hvec, hshows⟩ := h T metric hmetric
  obtain ⟨state, hset, hdesc, hgauge, hgauges, hothers, hreg, -⟩ :=
    hdoc.sets (float64 value) hshows.desc (plain_desc hmetric) (keys_labels T key)
  refine ⟨{ prom with state := state }, ?_, fun T' metric' hmetric' => ?_⟩
  · rw [Prom.setGauge, hvec]
    dsimp only
    rw [hset, Option.map_some]
  obtain ⟨vec', hvec', hshows'⟩ := h T' metric' hmetric'
  refine ⟨vec', hvec', ?_⟩
  by_cases hsame : vec' = vec
  · subst hsame
    obtain ⟨rfl, rfl⟩ := desc_inj (Option.some.inj (hshows'.desc.symm.trans hshows.desc))
    refine ⟨hdesc, hreg ▸ hshows.registered, fun key' => ?_, fun labels x hx => ?_⟩
    · by_cases hkey : T'.labels key' = T'.labels key
      · rw [hkey, hgauge, Finmap.lookup_insert, Option.map_some]
      · have hseries : (⟨T'.subsystem, metric'.1, T'.labels key'⟩ : Series)
            ≠ ⟨T'.subsystem, metric'.1, T'.labels key⟩ := fun he => hkey (Series.mk.inj he).2.2
        rw [hgauges _ fun he => hkey (labels_eq_of_labelsOf he),
          Finmap.lookup_insert_of_ne _ hseries]
        exact hshows.values key'
    · by_cases hlabels : labels = labelsOf (T'.labels key)
      · exact ⟨key, hlabels⟩
      · rw [hgauges labels hlabels] at hx
        exact hshows.only labels x hx
  · -- another gauge, so another series
    obtain ⟨hdesc', hgauge'⟩ := hothers vec' hsame
    refine ⟨hdesc'.trans hshows'.desc, hreg ▸ hshows'.registered, fun key' => ?_, ?_⟩
    · have hseries : (⟨T'.subsystem, metric'.1, T'.labels key'⟩ : Series)
          ≠ ⟨T.subsystem, metric.1, T.labels key⟩ := by
        intro he
        obtain ⟨hsub, hname', -⟩ := Series.mk.inj he
        rw [hsub, hname'] at hvec'
        exact hsame (Option.some.inj (hvec'.symm.trans hvec))
      rw [hgauge', Finmap.lookup_insert_of_ne _ hseries]
      exact hshows'.values key'
    · rw [hgauge']
      exact hshows'.only

/-- **The loop over the gauges of a family.** -/
theorem KeepsUp.setGauges {prom : Prom client} {gauges : Gauges} (hdoc : client.Documented)
    (h : KeepsUp prom gauges) (T : Table) (key : PromMetricsKey) (values : List UInt64) :
    ∃ prom', prom.setGauges T.subsystem T.gaugeNames (T.labels key) values = some prom' ∧
      KeepsUp prom' (setGauges T.subsystem T.gaugeNames (T.labels key) values gauges) := by
  have hnames : ∀ nv ∈ T.gaugeNames.zip values, nv.1 ∈ T.gaugeNames :=
    fun nv hnv => (List.of_mem_zip hnv).1
  unfold Prom.setGauges Agent.setGauges
  generalize T.gaugeNames.zip values = nvs at hnames ⊢
  induction nvs generalizing prom gauges with
  | nil => exact ⟨prom, rfl, h⟩
  | cons nv nvs ih =>
      obtain ⟨prom₁, hset, h₁⟩ := h.setGauge hdoc (hnames nv (List.mem_cons_self ..)) key nv.2
      obtain ⟨prom₂, hrest, h₂⟩ := ih h₁ fun nv' hnv' => hnames nv' (List.mem_cons_of_mem _ hnv')
      refine ⟨prom₂, ?_, h₂⟩
      rw [List.foldlM_cons, hset]
      exact hrest

/-- **Publishing an entry.** -/
theorem KeepsUp.publish {prom : Prom client} {gauges : Gauges} (hdoc : client.Documented)
    (h : KeepsUp prom gauges) (T : Table) (key : PromMetricsKey) (stats : FlowStats) :
    ∃ prom', prom.publish T key stats = some prom' ∧ KeepsUp prom' (T.setGauge key stats gauges) := by
  cases T with
  | pod =>
      simp only [Prom.publish, Prom.setPodGauge, Table.setGauge, Agent.setPodGauge]
      split_ifs
      · exact ⟨prom, rfl, h⟩
      · exact h.setGauges hdoc .pod key _
  | svc =>
      simp only [Prom.publish, Prom.setSvcGauge, Table.setGauge, Agent.setSvcGauge]
      split_ifs
      · exact ⟨prom, rfl, h⟩
      · exact h.setGauges hdoc .svc key _
  | known =>
      simp only [Prom.publish, Prom.setPodSvcGauge, Table.setGauge, Agent.setPodSvcGauge]
      split_ifs
      · exact h.setGauges hdoc .known key _
      · exact ⟨prom, rfl, h⟩
      · exact h.setGauges hdoc .known key _

/-! ## Sequences of calls -/

/-- A call of `SetPodGauge`, `SetSvcGauge` or `SetPodSvcGauge`. -/
abbrev GaugeCall := Table × PromMetricsKey × FlowStats

/-- The call, made of the map of series. -/
def GaugeCall.set (gauges : Gauges) (c : GaugeCall) : Gauges := c.1.setGauge c.2.1 c.2.2 gauges

/-- The gauges a sequence of calls leaves. -/
def gaugesAfter (calls : List GaugeCall) : Gauges := calls.foldl GaugeCall.set ∅

/-- The call, made of the client. -/
def Prom.call (prom : Prom client) (c : GaugeCall) : Option (Prom client) :=
  prom.publish c.1 c.2.1 c.2.2

/-- Others may have used the client, but not the agent's vectors. -/
def Prom.Untouched (prom : Prom client) (state : client.State) : Prop :=
  ∀ subsystem name vec, prom.getGaugeVec subsystem name = some vec →
    client.desc state vec = client.desc prom.state vec ∧
    client.gauge state vec = client.gauge prom.state vec ∧
    (vec ∈ client.registered prom.state → vec ∈ client.registered state)

/-- A new agent has registered its metrics with the client in this state and made these calls, while
others may have used the client at any time since. -/
inductive Published (client : PromClient Nat) (state : client.State) :
    List GaugeCall → Prom client → Prop
  | registered : Published client state [] (registeredProm client state)
  | call {calls : List GaugeCall} {prom prom' : Prom client} (c : GaugeCall)
      (h : Published client state calls prom) (hcall : prom.call c = some prom') :
      Published client state (calls ++ [c]) prom'
  | others {calls : List GaugeCall} {prom : Prom client} (state' : client.State)
      (h : Published client state calls prom) (huntouched : prom.Untouched state') :
      Published client state calls { prom with state := state' }

/-- Each of the calls succeeds when its turn comes. -/
def NeverPanics (client : PromClient Nat) (state : client.State) (calls : List GaugeCall) : Prop :=
  ∀ done c rest, calls = done ++ c :: rest → ∀ prom, Published client state done prom →
    (prom.call c).isSome

theorem KeepsUp.untouched {prom : Prom client} {gauges : Gauges} (h : KeepsUp prom gauges)
    {state : client.State} (huntouched : prom.Untouched state) :
    KeepsUp { prom with state := state } gauges := by
  intro T metric hmetric
  obtain ⟨vec, hvec, hshows⟩ := h T metric hmetric
  obtain ⟨hdesc, hgauge, hreg⟩ := huntouched _ _ vec hvec
  refine ⟨vec, hvec, hdesc.trans hshows.desc, hreg hshows.registered, fun key => ?_,
    fun labels x hx => ?_⟩
  · rw [hgauge]
    exact hshows.values key
  · rw [hgauge] at hx
    exact hshows.only labels x hx

/-- **The client keeps up with the calls.** -/
theorem Published.keepsUp (hdoc : client.Documented) {state : client.State}
    (hfree : NamesFree client state) {calls : List GaugeCall} {prom : Prom client}
    (h : Published client state calls prom) : KeepsUp prom (gaugesAfter calls) := by
  induction h with
  | registered => exact keepsUp_init hdoc hfree
  | call c _ hcall ih =>
      obtain ⟨prom', hcall', hkeeps⟩ := ih.publish hdoc c.1 c.2.1 c.2.2
      rw [gaugesAfter, List.foldl_concat, Option.some.inj (hcall.symm.trans hcall')]
      exact hkeeps
  | others state' _ huntouched ih => exact ih.untouched huntouched

theorem neverPanics (hdoc : client.Documented) {state : client.State}
    (hfree : NamesFree client state) (calls : List GaugeCall) : NeverPanics client state calls := by
  intro done c rest _ prom hprom
  obtain ⟨prom', hcall, -⟩ := (hprom.keepsUp hdoc hfree).publish hdoc c.1 c.2.1 c.2.2
  exact Option.isSome_of_eq_some hcall

/-- Calls that do not panic can all be made. -/
theorem exists_published {state : client.State} {calls : List GaugeCall}
    (h : NeverPanics client state calls) : ∃ prom, Published client state calls prom := by
  induction calls using List.reverseRecOn with
  | nil => exact ⟨_, .registered⟩
  | append_singleton calls c ih =>
      obtain ⟨prom, hprom⟩ := ih fun done c' rest heq =>
        h done c' (rest ++ [c]) (by rw [heq, List.append_assoc, List.cons_append])
      obtain ⟨prom', hcall⟩ := Option.isSome_iff_exists.mp (h calls c [] rfl prom hprom)
      exact ⟨prom', .call c hprom hcall⟩

/-! ## What is gathered -/

/-- **Under the agent's names the series are gathered**, rounded. -/
theorem KeepsUp.gathers_iff {prom : Prom client} {gauges : Gauges} (hdoc : client.Documented)
    (h : KeepsUp prom gauges) {T : Table} {name : String} (hname : name ∈ T.gaugeNames)
    (labels : Labels) (x : Nat) :
    ⟨T.fqName client name, labels, x⟩ ∈ client.gather prom.state ↔
      ∃ key value, gauges.lookup ⟨T.subsystem, name, T.labels key⟩ = some value ∧
        labels = labelsOf (T.labels key) ∧ x = float64 value := by
  obtain ⟨metric, hmetric, rfl⟩ := mem_gaugeNames_iff.mp hname
  obtain ⟨vec, -, hshows⟩ := h T metric hmetric
  rw [← fqName_desc, hdoc.gathers hshows.desc hshows.registered]
  constructor
  · intro hx
    obtain ⟨key, rfl⟩ := hshows.only labels x hx
    rw [hshows.values, Option.map_eq_some_iff] at hx
    obtain ⟨value, hvalue, rfl⟩ := hx
    exact ⟨key, value, hvalue, rfl, rfl⟩
  · rintro ⟨key, value, hvalue, rfl, rfl⟩
    rw [hshows.values, hvalue, Option.map_some]

/--
**Publishing never panics, and `/metrics` shows the gauges last set.**

With a client that does what its documentation says, in whatever state nobody has
registered the agent's names in: for every sequence of calls of `SetPodGauge`,
`SetSvcGauge` and `SetPodSvcGauge`, with any keys and counters, after
`registerPrometheusMetrics`, every lookup of every call succeeds. Of what is
gathered under the agent's names then, each series that has been set is there with
a `float64` nearest to the counter last set, which is the counter exactly if 53
bits hold it; nothing else is there; and no two samples have the same name and
labels. Others may use the client meanwhile, as long as they leave the agent's
vectors alone.
-/
theorem registry_shows_gauges (client : PromClient Nat) (hdoc : client.Documented)
    (state : client.State) (hfree : NamesFree client state) (calls : List GaugeCall) :
    NeverPanics client state calls ∧
    ∀ prom, Published client state calls prom → ∀ T : Table, ∀ name ∈ T.gaugeNames,
      (∀ key value,
        (gaugesAfter calls).lookup ⟨T.subsystem, name, T.labels key⟩ = some value →
        ∃ x, ⟨T.fqName client name, labelsOf (T.labels key), x⟩ ∈ client.gather prom.state ∧
          Nearest 53 value.toNat x ∧ (x = value.toNat ↔ Representable 53 value.toNat)) ∧
      (∀ labels x, ⟨T.fqName client name, labels, x⟩ ∈ client.gather prom.state →
        ∃ key, labels = labelsOf (T.labels key) ∧
          ((gaugesAfter calls).lookup ⟨T.subsystem, name, T.labels key⟩).isSome) ∧
      ∀ labels x x', ⟨T.fqName client name, labels, x⟩ ∈ client.gather prom.state →
        ⟨T.fqName client name, labels, x'⟩ ∈ client.gather prom.state → x = x' := by
  refine ⟨neverPanics hdoc hfree calls, fun prom hprom T name hname => ?_⟩
  have h := hprom.keepsUp hdoc hfree
  refine ⟨?_, ?_, ?_⟩
  · intro key value hvalue
    exact ⟨float64 value, (h.gathers_iff hdoc hname _ _).mpr ⟨key, value, hvalue, rfl, rfl⟩,
      nearest_roundEven (by decide) _, roundEven_eq_self (by decide)⟩
  · intro labels x hx
    obtain ⟨key, value, hvalue, rfl, rfl⟩ := (h.gathers_iff hdoc hname _ _).mp hx
    exact ⟨key, rfl, Option.isSome_of_eq_some hvalue⟩
  · intro labels x x' hx hx'
    obtain ⟨key, value, hvalue, rfl, rfl⟩ := (h.gathers_iff hdoc hname _ _).mp hx
    obtain ⟨key', value', hvalue', hlabels, rfl⟩ := (h.gathers_iff hdoc hname _ _).mp hx'
    rw [labels_eq_of_labelsOf hlabels, hvalue'] at hvalue
    rw [Option.some.inj hvalue]

/-- A registry in which there is a collector of somebody else's. -/
def goRegistry : VecTable Nat where
  vecs := []
  registry := ∅
  others := [⟨"go_goroutines", ∅, 7⟩]
  filed := by
    intro name vec h
    rw [Finmap.lookup_empty] at h
    cases h

theorem namesFree_goRegistry : NamesFree (tableClient Nat) goRegistry := by
  have hall : ∀ T : Table, ∀ name ∈ T.gaugeNames,
      ¬ goRegistry.Taken (VecTable.buildFQName "statsagent" T.subsystem name) := by
    intro T
    cases T <;> decide +kernel
  exact hall

/-- The key of a pod's entry, taken apart. -/
def clientPromKey : PromMetricsKey where
  podNamespace := ("default", "")
  podName := ("client", "")
  metricName := .podStats

theorem registry_shows_gauges_client :
    ∃ prom, Published (tableClient Nat) goRegistry
        [(.pod, clientPromKey, ⟨60, 1, 0, 0⟩), (.pod, clientPromKey, ⟨92, 1, 60, 1⟩)] prom ∧
      ⟨"statsagent_pod_stats_pod_tx_bytes",
        labelsOf [("pod_namespace", "default"), ("pod_name", "client")], 92⟩
          ∈ (tableClient Nat).gather prom.state := by
  obtain ⟨hpanics, hshows⟩ := registry_shows_gauges (tableClient Nat)
    (documented_tableClient Nat) goRegistry namesFree_goRegistry
    [(.pod, clientPromKey, ⟨60, 1, 0, 0⟩), (.pod, clientPromKey, ⟨92, 1, 60, 1⟩)]
  obtain ⟨prom, hprom⟩ := exists_published hpanics
  obtain ⟨x, hx, -, hexact⟩ := (hshows prom hprom .pod "pod_tx_bytes" (by decide)).1 clientPromKey 92
    (by decide +kernel)
  obtain rfl : x = 92 := hexact.mpr ⟨92, 0, by decide, rfl⟩
  have hname : Table.pod.fqName (tableClient Nat) "pod_tx_bytes"
      = "statsagent_pod_stats_pod_tx_bytes" := by decide +kernel
  rw [hname] at hx
  exact ⟨prom, hprom, hx⟩

end Client

/-! ## The calls of a scan -/

/-- The calls that publish the entries to which shares are added, in the order they are added. -/
def shareCalls (stats : FlowStats) (t : Time) : InetV4FlowMetricsEntry → List Share → List GaugeCall
  | _, [] => []
  | metric, sh :: l =>
    let after := metric.addTo sh.table sh.key (sh.part stats) t
    (sh.table, sh.key.toPromMetricsKey, after.statsOf sh.table sh.key) :: shareCalls stats t after l

/-- The calls of the setters that `mergeStats` makes. -/
def mergeStatsCalls (metric : InetV4FlowMetricsEntry) (keyType : Nat) (podStatsKey : PodStatsKey)
    (stats : FlowStats) (t : Time) : List GaugeCall :=
  shareCalls stats t metric (shares keyType podStatsKey)

/-- Those a report leads to: it is noted if it is merged. -/
def scanFlowCalls (t : Time) (s : Scan) (r : InetV4Flow × FlowStats) : List GaugeCall :=
  match (scanFlow t s r.1 r.2).trace with
  | .merged _ keyType podStatsKey stats t :: _ => mergeStatsCalls s.metric keyType podStatsKey stats t
  | _ => []

/-- Those of the loop over the kernel map. -/
def scanFlowsCalls (t : Time) : List (InetV4Flow × FlowStats) → Scan → List GaugeCall
  | [], _ => []
  | r :: rs, s => scanFlowCalls t s r ++ scanFlowsCalls t rs (scanFlow t s r.1 r.2)

/-- What is stored of the flows does not matter to them. -/
theorem shareCalls_withBaseMap (stats : FlowStats) (t : Time) (metric : InetV4FlowMetricsEntry)
    (b : PtrMap InetV4Flow FlowStatsEntry) (l : List Share) :
    shareCalls stats t { metric with baseMap := b } l = shareCalls stats t metric l := by
  induction l generalizing metric with
  | nil => rfl
  | cons sh l ih =>
      have hadd : ({ metric with baseMap := b } : InetV4FlowMetricsEntry).addTo sh.table sh.key
          (sh.part stats) t
            = { metric.addTo sh.table sh.key (sh.part stats) t with baseMap := b } := by
        cases sh.table <;> rfl
      rw [shareCalls, shareCalls, hadd]
      dsimp only
      rw [ih]
      unfold InetV4FlowMetricsEntry.statsOf
      rw [table_withBaseMap]

/-- **The gauges after shares are added are those the calls leave.** -/
theorem gauges_addShares (stats : FlowStats) (t : Time) (metric : InetV4FlowMetricsEntry)
    (l : List Share) :
    (metric.addShares l stats t).agent.gauges
      = (shareCalls stats t metric l).foldl GaugeCall.set metric.agent.gauges := by
  induction l generalizing metric with
  | nil => rfl
  | cons sh l ih =>
      refine (ih _).trans ?_
      rw [gauges_addTo]
      rfl

/-- One report. -/
theorem gauges_scanFlow (t : Time) (s : Scan) (r : InetV4Flow × FlowStats) :
    (scanFlow t s r.1 r.2).metric.agent.gauges
      = (scanFlowCalls t s r).foldl GaugeCall.set s.metric.agent.gauges := by
  have hobs := scanFlow_observes t s r.1 r.2
  unfold scanFlowCalls
  generalize scanFlow t s r.1 r.2 = s' at hobs
  cases hobs with
  | new b _ _ =>
      dsimp only
      rw [InetV4FlowMetricsEntry.mergeStats_eq, gauges_addShares, shareCalls_withBaseMap]
      rfl
  | unchanged b e _ _ _ => rfl
  | changed b e _ _ _ =>
      dsimp only
      rw [InetV4FlowMetricsEntry.mergeStats_eq, gauges_addShares, shareCalls_withBaseMap]
      rfl

/-- **A scan sets the gauges by its calls**, and in no other way. -/
theorem gauges_scanFlows (t : Time) (reports : List (InetV4Flow × FlowStats)) (s : Scan) :
    (scanFlows t reports s).metric.agent.gauges
      = (scanFlowsCalls t reports s).foldl GaugeCall.set s.metric.agent.gauges := by
  induction reports generalizing s with
  | nil => rfl
  | cons r rs ih =>
      rw [scanFlowsCalls, List.foldl_append, ← gauges_scanFlow]
      exact ih (scanFlow t s r.1 r.2)

end Kubpf.Agent
