import Mathlib.Data.Finmap
import Mathlib.Data.Set.Insert

/-!
# The Prometheus client

A program makes gauge vectors, registers them, sets a gauge of a vector by its
labels, and leaves the rest to the client library: the library keeps the gauges,
and its HTTP handler serves what the default registry gathers.

The library is not modelled. `PromClient` is what is called of it, beside what its
documentation speaks of: how a vector was made, what its gauges are set to, what
is in the registry. `Documented` is what the documentation says of the calls, for
names and labels it leaves no doubt about. It does not say that the registry is
empty at the start, nor what is gathered under names that others have registered.
-/

namespace Kubpf.Lib

variable {α : Type}

/-! ## Names and labels -/

/-- `prometheus.Labels`. -/
abbrev Labels := Finmap (fun _ : String => String)

/-- The literal `prometheus.Labels{…}`. -/
def labelsOf (l : List (String × String)) : Labels :=
  (l.map fun p => (⟨p.1, p.2⟩ : Sigma fun _ : String => String)).toFinmap

theorem mem_keys_labelsOf {l : List (String × String)} {name : String} :
    name ∈ (labelsOf l).keys ↔ name ∈ l.map Prod.fst := by
  rw [Finmap.mem_keys, labelsOf, Finmap.mem_list_toFinmap]
  simp only [List.mem_map, Sigma.mk.injEq, heq_eq_eq]
  constructor
  · rintro ⟨value, p, hp, rfl, -⟩
    exact ⟨p, hp, rfl⟩
  · rintro ⟨p, hp, rfl⟩
    exact ⟨p.2, p, hp, rfl, rfl⟩

theorem lookup_labelsOf {l : List (String × String)} (hnd : (l.map Prod.fst).Nodup)
    {p : String × String} (hp : p ∈ l) : (labelsOf l).lookup p.1 = some p.2 := by
  rw [labelsOf, Finmap.dlookup_list_toFinmap]
  refine List.mem_dlookup ?_ (List.mem_map_of_mem hp)
  rw [List.NodupKeys, List.keys, List.map_map]
  exact hnd

/-- Literals with the same names in the same places are equal as maps only if they are written
alike. -/
theorem labelsOf_inj {l l' : List (String × String)} (hnd : (l.map Prod.fst).Nodup)
    (hnames : l.map Prod.fst = l'.map Prod.fst) (h : labelsOf l = labelsOf l') : l = l' := by
  have hlen : l.length = l'.length := by
    have := congrArg List.length hnames
    rwa [List.length_map, List.length_map] at this
  refine List.ext_getElem hlen fun i hi hi' => ?_
  have hname : l[i].1 = l'[i].1 := by
    have hget := List.getElem_of_eq hnames (by rwa [List.length_map])
    rwa [List.getElem_map, List.getElem_map] at hget
  have hvalue := lookup_labelsOf hnd (List.getElem_mem hi)
  rw [h, hname, lookup_labelsOf (hnames ▸ hnd) (List.getElem_mem hi')] at hvalue
  exact Prod.ext hname (Option.some.inj hvalue).symm

/-- `prometheus.GaugeOpts`, `ns` being its `Namespace`. -/
structure GaugeOpts where
  ns : String
  subsystem : String
  name : String
  help : String
  deriving DecidableEq, Repr

/-- How a vector of gauges is made. -/
structure GaugeDesc where
  opts : GaugeOpts
  labelNames : List String
  deriving DecidableEq, Repr

def plainChars : List Char → Bool
  | [] => false
  | c :: cs => c.isLower && cs.all fun c => c.isLower || c == '_'

/-- Small letters and underscores, and a letter first. -/
def PlainName (s : String) : Prop := plainChars s.toList = true

instance (s : String) : Decidable (PlainName s) := inferInstanceAs (Decidable (_ = true))

/-- The names are allowed as names of metrics and of labels. -/
structure GaugeDesc.Plain (d : GaugeDesc) : Prop where
  ns : PlainName d.opts.ns
  subsystem : PlainName d.opts.subsystem
  name : PlainName d.opts.name
  labels : ∀ l ∈ d.labelNames, PlainName l
  nodup : d.labelNames.Nodup

theorem ne_empty_of_plainName {s : String} (h : PlainName s) : s ≠ "" := by
  rintro rfl
  exact Bool.false_ne_true h

/-- One sample of what is served, of a metric that has one value. -/
structure Sample (α : Type) where
  fqName : String
  labels : Labels
  value : α

/-! ## The client -/

/-- What is called of the library, and what its documentation speaks of. `α` is what a gauge can
be set to. -/
structure PromClient (α : Type) where
  /-- All that the library keeps: the vectors there are and the default registry. -/
  State : Type
  /-- `*prometheus.GaugeVec` -/
  GaugeVec : Type
  /-- `prometheus.BuildFQName` -/
  buildFQName : String → String → String → String
  /-- `prometheus.NewGaugeVec` -/
  newGaugeVec : GaugeOpts → List String → State → GaugeVec × State
  /-- `prometheus.Register`; `false` is an error. -/
  register : GaugeVec → State → Bool × State
  /-- `vec.With(labels).Set(x)`; `none` is a panic. -/
  withSet : GaugeVec → Labels → α → State → Option State
  /-- What the default registry gathers, for `promhttp.Handler()` to serve. -/
  gather : State → Set (Sample α)
  /-- How the vector was made, if it has been. -/
  desc : State → GaugeVec → Option GaugeDesc
  /-- What a vector's gauge for these labels was set to. -/
  gauge : State → GaugeVec → Labels → Option α
  /-- The vectors in the default registry. -/
  registered : State → Set GaugeVec
  /-- The names of the metrics in the default registry, whoever has registered them. -/
  names : State → Set String

namespace PromClient

variable (client : PromClient α)

/-- The name a vector's gauges are served under. -/
def fqName (d : GaugeDesc) : String :=
  client.buildFQName d.opts.ns d.opts.subsystem d.opts.name

/-- Every vector but this one is as it was. -/
def SameBut (vec : client.GaugeVec) (s s' : client.State) : Prop :=
  ∀ vec', vec' ≠ vec →
    client.desc s' vec' = client.desc s vec' ∧ client.gauge s' vec' = client.gauge s vec'

/-- The registry is as it was. -/
def SameRegistry (s s' : client.State) : Prop :=
  client.registered s' = client.registered s ∧ client.names s' = client.names s

/-- What the documentation says of the calls. -/
structure Documented : Prop where
  /-- The parts of a name are joined by underscores. -/
  joins : ∀ {ns subsystem name : String}, ns ≠ "" → subsystem ≠ "" → name ≠ "" →
    client.buildFQName ns subsystem name = ns ++ "_" ++ subsystem ++ "_" ++ name
  /-- A new vector is none of those there are. It has no gauges yet, and is not registered. -/
  makes : ∀ {opts labelNames s vec s'}, client.newGaugeVec opts labelNames s = (vec, s') →
    client.desc s vec = none ∧ client.desc s' vec = some ⟨opts, labelNames⟩ ∧
    (∀ labels, client.gauge s' vec labels = none) ∧
    client.SameBut vec s s' ∧ client.SameRegistry s s'
  /-- A vector is registered under a name that is free. -/
  registers : ∀ {vec s d}, client.desc s vec = some d → d.Plain →
    client.fqName d ∉ client.names s →
    ∃ s', client.register vec s = (true, s') ∧
      client.desc s' = client.desc s ∧ client.gauge s' = client.gauge s ∧
      client.registered s' = insert vec (client.registered s) ∧
      client.names s' = insert (client.fqName d) (client.names s)
  /-- `With` takes exactly the labels the vector was made with. It makes the gauge if there is none,
  and `Set` sets it. -/
  sets : ∀ {vec s d labels} (x : α), client.desc s vec = some d → d.Plain →
    labels.keys = d.labelNames.toFinset →
    ∃ s', client.withSet vec labels x s = some s' ∧ client.desc s' vec = some d ∧
      client.gauge s' vec labels = some x ∧
      (∀ labels', labels' ≠ labels → client.gauge s' vec labels' = client.gauge s vec labels') ∧
      client.SameBut vec s s' ∧ client.SameRegistry s s'
  /-- Under the name of a registered vector its gauges are gathered, and nothing else. -/
  gathers : ∀ {vec s d}, client.desc s vec = some d → vec ∈ client.registered s →
    ∀ labels x, ⟨client.fqName d, labels, x⟩ ∈ client.gather s ↔ client.gauge s vec labels = some x

end PromClient

/-! ## A client with a table of vectors -/

namespace VecTable

def buildFQName (ns subsystem name : String) : String :=
  if name = "" then ""
  else (if ns = "" then "" else ns ++ "_") ++ ((if subsystem = "" then "" else subsystem ++ "_") ++
    name)

def fqName (d : GaugeDesc) : String := buildFQName d.opts.ns d.opts.subsystem d.opts.name

end VecTable

/-- The vectors made, those registered by name, and what other collectors have to show. -/
structure VecTable (α : Type) where
  vecs : List (GaugeDesc × Finmap (fun _ : Labels => α))
  registry : Finmap (fun _ : String => Nat)
  others : List (Sample α)
  filed : ∀ name vec, registry.lookup name = some vec →
    ∃ v, vecs[vec]? = some v ∧ VecTable.fqName v.1 = name

namespace VecTable

variable (s : VecTable α)

/-- A registered vector or another collector has the name. -/
def Taken (name : String) : Prop := name ∈ s.registry ∨ ∃ o ∈ s.others, o.fqName = name

instance (name : String) : Decidable (s.Taken name) := inferInstanceAs (Decidable (_ ∨ _))

def desc (vec : Nat) : Option GaugeDesc := (s.vecs[vec]?).map Prod.fst

def gauge (vec : Nat) (labels : Labels) : Option α :=
  (s.vecs[vec]?).bind fun v => v.2.lookup labels

def newGaugeVec (opts : GaugeOpts) (labelNames : List String) : Nat × VecTable α :=
  (s.vecs.length,
    { s with
      vecs := s.vecs ++ [(⟨opts, labelNames⟩, ∅)]
      filed := by
        intro name vec h
        obtain ⟨v, hv, hname⟩ := s.filed name vec h
        have hlt : vec < s.vecs.length := (List.getElem?_eq_some_iff.mp hv).1
        exact ⟨v, (List.getElem?_append_left hlt).trans hv, hname⟩ })

/-- Enter a vector under its name. -/
def enter (vec : Nat) (h : vec < s.vecs.length) : VecTable α :=
  { s with
    registry := s.registry.insert (fqName s.vecs[vec].1) vec
    filed := by
      intro name vec' h'
      by_cases hname : name = fqName s.vecs[vec].1
      · rw [hname, Finmap.lookup_insert] at h'
        obtain rfl : vec = vec' := Option.some.inj h'
        exact ⟨s.vecs[vec], List.getElem?_eq_getElem h, hname.symm⟩
      · rw [Finmap.lookup_insert_of_ne _ hname] at h'
        exact s.filed name vec' h' }

def register (vec : Nat) : Bool × VecTable α :=
  if h : vec < s.vecs.length then
    if s.Taken (fqName s.vecs[vec].1) then (false, s) else (true, s.enter vec h)
  else (false, s)

def set (vec : Nat) (labels : Labels) (x : α) : VecTable α :=
  { s with
    vecs := s.vecs.modify vec fun v => (v.1, v.2.insert labels x)
    filed := by
      intro name vec' h
      obtain ⟨v, hv, hname⟩ := s.filed name vec' h
      rw [List.getElem?_modify, hv]
      split_ifs
      · exact ⟨_, rfl, hname⟩
      · exact ⟨v, rfl, hname⟩ }

def withSet (vec : Nat) (labels : Labels) (x : α) : Option (VecTable α) :=
  match s.desc vec with
  | none => none
  | some d => if labels.keys = d.labelNames.toFinset then some (s.set vec labels x) else none

/-- The gauges of registered vectors, and what the others show. -/
def gather : Set (Sample α) := fun sample =>
  match s.registry.lookup sample.fqName with
  | some vec => s.gauge vec sample.labels = some sample.value
  | none => sample ∈ s.others

end VecTable

/-- The client that keeps such a table. -/
def tableClient (α : Type) : PromClient α where
  State := VecTable α
  GaugeVec := Nat
  buildFQName := VecTable.buildFQName
  newGaugeVec := fun opts labelNames s => s.newGaugeVec opts labelNames
  register := fun vec s => s.register vec
  withSet := fun vec labels x s => s.withSet vec labels x
  gather := VecTable.gather
  desc := VecTable.desc
  gauge := VecTable.gauge
  registered := fun s vec => ∃ name, s.registry.lookup name = some vec
  names := VecTable.Taken

section VecTable

variable {s s' : VecTable α} {vec vec' : Nat} {d : GaugeDesc}

/-- All that is known of a vector is its row. -/
theorem same_of_row (h : s'.vecs[vec]? = s.vecs[vec]?) :
    s'.desc vec = s.desc vec ∧ s'.gauge vec = s.gauge vec := by
  unfold VecTable.desc VecTable.gauge
  rw [h]
  exact ⟨rfl, rfl⟩

theorem newGaugeVec_new (opts : GaugeOpts) (labelNames : List String) :
    s.desc s.vecs.length = none ∧
    (s.newGaugeVec opts labelNames).2.desc s.vecs.length = some ⟨opts, labelNames⟩ ∧
    ∀ labels, (s.newGaugeVec opts labelNames).2.gauge s.vecs.length labels = none := by
  have hold : s.vecs[s.vecs.length]? = none := List.getElem?_eq_none (Nat.le_refl _)
  have hnew : (s.newGaugeVec opts labelNames).2.vecs[s.vecs.length]?
      = some (⟨opts, labelNames⟩, ∅) := List.getElem?_concat_length
  refine ⟨?_, ?_, fun labels => ?_⟩
  · rw [VecTable.desc, hold, Option.map_none]
  · rw [VecTable.desc, hnew, Option.map_some]
  · rw [VecTable.gauge, hnew, Option.bind_some, Finmap.lookup_empty]

theorem newGaugeVec_old (opts : GaugeOpts) (labelNames : List String)
    (h : vec ≠ s.vecs.length) :
    (s.newGaugeVec opts labelNames).2.vecs[vec]? = s.vecs[vec]? := by
  rw [VecTable.newGaugeVec, List.getElem?_append]
  split_ifs with hlt
  · rfl
  · rw [List.getElem?_eq_none (Nat.not_lt.mp hlt), List.getElem?_eq_none]
    rw [List.length_singleton]
    omega

/-- A vector whose name is free is entered under its name. -/
theorem exists_enter (hdesc : s.desc vec = some d) (hfree : ¬ s.Taken (VecTable.fqName d)) :
    ∃ s', s.register vec = (true, s') ∧ s'.vecs = s.vecs ∧ s'.others = s.others ∧
      s'.registry = s.registry.insert (VecTable.fqName d) vec := by
  obtain ⟨v, hv, rfl⟩ := Option.map_eq_some_iff.mp hdesc
  obtain ⟨hlt, rfl⟩ := List.getElem?_eq_some_iff.mp hv
  refine ⟨s.enter vec hlt, ?_, rfl, rfl, rfl⟩
  rw [VecTable.register, dif_pos hlt, if_neg hfree]

/-- The registry then has that vector besides. -/
theorem registry_enter {name : String} (hregistry : s'.registry = s.registry.insert name vec)
    (hfree : ¬ s.Taken name) :
    (∃ n, s'.registry.lookup n = some vec') ↔ vec' = vec ∨ ∃ n, s.registry.lookup n = some vec' := by
  rw [hregistry]
  constructor
  · rintro ⟨n, hn⟩
    by_cases hname : n = name
    · rw [hname, Finmap.lookup_insert] at hn
      exact Or.inl (Option.some.inj hn).symm
    · rw [Finmap.lookup_insert_of_ne _ hname] at hn
      exact Or.inr ⟨n, hn⟩
  · rintro (rfl | ⟨n, hn⟩)
    · exact ⟨name, Finmap.lookup_insert _⟩
    · have hname : n ≠ name := by
        rintro rfl
        exact hfree (Or.inl (Finmap.mem_of_lookup_eq_some hn))
      exact ⟨n, (Finmap.lookup_insert_of_ne _ hname).trans hn⟩

theorem taken_enter {name n : String} (hregistry : s'.registry = s.registry.insert name vec)
    (hothers : s'.others = s.others) : s'.Taken n ↔ n = name ∨ s.Taken n := by
  rw [VecTable.Taken, VecTable.Taken, hregistry, hothers, Finmap.mem_insert, or_assoc]

theorem set_self (labels : Labels) (x : α) (hdesc : s.desc vec = some d) :
    (s.set vec labels x).desc vec = some d ∧
    (s.set vec labels x).gauge vec = Function.update (s.gauge vec) labels (some x) := by
  obtain ⟨v, hv, rfl⟩ := Option.map_eq_some_iff.mp hdesc
  have hrow : (s.set vec labels x).vecs[vec]? = some (v.1, v.2.insert labels x) := by
    rw [VecTable.set, List.getElem?_modify, hv]
    simp
  refine ⟨by rw [VecTable.desc, hrow, Option.map_some], funext fun labels' => ?_⟩
  rw [VecTable.gauge, hrow, Option.bind_some]
  by_cases hlabels : labels' = labels
  · rw [hlabels, Finmap.lookup_insert, Function.update_self]
  · rw [Finmap.lookup_insert_of_ne _ hlabels, Function.update_of_ne hlabels, VecTable.gauge, hv,
      Option.bind_some]

theorem set_other (labels : Labels) (x : α) (h : vec' ≠ vec) :
    (s.set vec labels x).vecs[vec']? = s.vecs[vec']? := by
  rw [VecTable.set, List.getElem?_modify]
  simp [Ne.symm h]

theorem withSet_eq (labels : Labels) (x : α) (hdesc : s.desc vec = some d)
    (hkeys : labels.keys = d.labelNames.toFinset) :
    s.withSet vec labels x = some (s.set vec labels x) := by
  rw [VecTable.withSet, hdesc]
  exact if_pos hkeys

/-- A vector in the registry is there under its name, which is where its gauges are found. -/
theorem mem_gather (hdesc : s.desc vec = some d) {name : String}
    (h : s.registry.lookup name = some vec) (labels : Labels) (x : α) :
    ⟨VecTable.fqName d, labels, x⟩ ∈ s.gather ↔ s.gauge vec labels = some x := by
  obtain ⟨v, hv, rfl⟩ := Option.map_eq_some_iff.mp hdesc
  obtain ⟨v', hv', rfl⟩ := s.filed name vec h
  obtain rfl := Option.some.inj (hv.symm.trans hv')
  show s.gather _ ↔ _
  unfold VecTable.gather
  rw [h]

end VecTable

/-- **It does what the documentation says.** -/
theorem documented_tableClient (α : Type) : (tableClient α).Documented where
  joins := by
    intro ns subsystem name hns hsub hname
    show VecTable.buildFQName ns subsystem name = _
    rw [VecTable.buildFQName, if_neg hname, if_neg hns, if_neg hsub]
    simp only [String.append_assoc]
  makes := by
    intro opts labelNames s vec s' h
    obtain ⟨rfl, rfl⟩ := Prod.mk.inj h
    obtain ⟨hfresh, hdesc, hgauge⟩ := newGaugeVec_new (s := s) opts labelNames
    refine ⟨hfresh, hdesc, hgauge, fun vec' hne => ?_, rfl, rfl⟩
    exact same_of_row (newGaugeVec_old opts labelNames hne)
  registers := by
    intro vec s d hdesc _ hfree
    obtain ⟨s', hs', hvecs, hothers, hregistry⟩ := exists_enter hdesc hfree
    have hsame : ∀ vec' : Nat, s'.vecs[vec']? = (s : VecTable α).vecs[vec']? := by
      intro vec'
      rw [hvecs]
    refine ⟨s', hs', funext fun vec' => (same_of_row (hsame vec')).1,
      funext fun vec' => (same_of_row (hsame vec')).2, ?_, ?_⟩
    · exact Set.ext fun vec' => registry_enter hregistry hfree
    · exact Set.ext fun name => taken_enter hregistry hothers
  sets := by
    intro vec s d labels x hdesc _ hkeys
    obtain ⟨hdesc', hgauge⟩ := set_self labels x hdesc
    refine ⟨_, withSet_eq labels x hdesc hkeys, hdesc', ?_, fun labels' hne => ?_,
      fun vec' hne => ?_, rfl, rfl⟩
    · exact (congrFun hgauge labels).trans (Function.update_self ..)
    · exact (congrFun hgauge labels').trans (Function.update_of_ne hne ..)
    · exact same_of_row (set_other labels x hne)
  gathers := by
    intro vec s d hdesc hreg labels x
    obtain ⟨name, hname⟩ := hreg
    exact mem_gather hdesc hname labels x

end Kubpf.Lib
