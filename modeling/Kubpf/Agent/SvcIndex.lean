import Kubpf.Agent.Informers

/-!
# The service index

A service is entered under its `ClusterIP` whatever that is, unless it is
headless. An `ExternalName` service has none, and is entered under the empty
address; a service whose address changes keeps the old entry. As long as neither
happens, `svcInfo` and `svcIpToName` are each other's inverse, the services in
them are the live ones, and `getPodStatsKey` names the current owner of an
address.
-/

namespace Kubpf.Agent

open Lib

/-- The last that was heard of the service is that it is as here. -/
def LiveService (past : List (Notice Service)) (svc : Service) : Prop :=
  svcRegistry.lastNotice svc.key past = some (.updated svc)

/-- At no time do two live services share an address. -/
def DistinctLive (evs : List (Notice Service)) : Prop :=
  ∀ past, past <+: evs → ∀ svc svc', LiveService past svc → LiveService past svc' →
    svc.clusterIP = svc'.clusterIP → svc.clusterIP ≠ "" → svc.clusterIP ≠ "None" →
    svc.key = svc'.key

/-- An endpoint string for an address: name and type of the live service that owns it. -/
def NamesOwner (past : List (Notice Service)) (ip endpoint : String) : Prop :=
  ∃ svc, LiveService past svc ∧ svc.clusterIP = ip ∧
    (svcIndex past).svcIpToName.lookup ip = some svc.key ∧
    endpoint = svc.key ++ ("/" ++ svc.type.svcType)

/-- The index names the current owner of each address. -/
structure SvcsCurrent (past : List (Notice Service)) : Prop where
  /-- Whoever owns an address has it. -/
  owned : ∀ ip k, (svcIndex past).svcIpToName.lookup ip = some k →
    ip ≠ "" ∧ ∃ info, (svcIndex past).svcInfo.lookup k = some info ∧ info.clusterIP = ip
  /-- Whoever has an address owns it. -/
  known : ∀ k info, (svcIndex past).svcInfo.lookup k = some info → info.clusterIP ≠ "" →
    (svcIndex past).svcIpToName.lookup info.clusterIP = some k
  /-- `getPodStatsKey` names the owner at either end of a flow, whatever pods there are. -/
  named : ∀ (K : Type) [FlowKey K] (keyOut : K) (agent : Index),
    agent.services = (svcIndex past).services →
    (agent.isSvc (getSrcIp keyOut) →
      NamesOwner past (getSrcIp keyOut) (getPodStatsKey agent keyOut).1.endpoints.1) ∧
    (agent.isSvc (getDstIp keyOut) →
      NamesOwner past (getDstIp keyOut) (getPodStatsKey agent keyOut).1.endpoints.2)

/-- The service comes with an address, and with the one that is recorded for it. -/
def KeepsAddress (agent : Index) (svc : Service) : Prop :=
  svc.clusterIP ≠ "" ∧
    ∀ info, agent.svcInfo.lookup svc.key = some info → info.clusterIP = svc.clusterIP

theorem liveService_concat {past : List (Notice Service)} {ev : Notice Service} {svc : Service} :
    LiveService (past ++ [ev]) svc
      ↔ if ev.object.key = svc.key then ev = .updated svc else LiveService past svc := by
  rw [LiveService, Registry.lastNotice_concat]
  by_cases h : ev.object.key = svc.key
  · have h' : svcRegistry.name ev.object = svc.key := h
    rw [if_pos h', if_pos h, Option.some.injEq]
  · have h' : ¬ svcRegistry.name ev.object = svc.key := h
    rw [if_neg h', if_neg h]
    rfl

/-! ## The invariant -/

/-- The two maps are each other's inverse and hold what is live. -/
structure SvcInv (past : List (Notice Service)) : Prop where
  exact : (svcIndex past).services.Exact SvcInfo.clusterIP
  /-- The services entered are the live ones that are not headless. -/
  recorded : ∀ k info, (svcIndex past).svcInfo.lookup k = some info
    ↔ ∃ svc, LiveService past svc ∧ svc.key = k ∧ svc.clusterIP ≠ "None" ∧
      svcRegistry.info svc = info
  /-- No live service is without an address. -/
  nonempty : ∀ svc, LiveService past svc → svc.clusterIP ≠ ""

theorem svcInv_init : SvcInv [] where
  exact := AddressBook.exact_empty
  recorded := by
    intro k info
    refine iff_of_false (by simp [svcIndex, Index.empty]) ?_
    rintro ⟨svc, hlive, -⟩
    cases hlive
  nonempty := by intro svc hlive; cases hlive

section Inv

variable {past : List (Notice Service)}

/-- What is recorded has an address. -/
theorem SvcInv.clusterIP_ne {k : String} {info : SvcInfo} (h : SvcInv past)
    (hinfo : (svcIndex past).svcInfo.lookup k = some info) :
    info.clusterIP ≠ "" ∧ info.clusterIP ≠ "None" := by
  obtain ⟨svc, hlive, -, hnone, rfl⟩ := (h.recorded k info).mp hinfo
  exact ⟨h.nonempty svc hlive, hnone⟩

/-- An endpoint that is a service's is named after the owner of its address. -/
theorem SvcInv.namesOwner {ip : String} (h : SvcInv past) {agent : Index}
    (hagent : agent.services = (svcIndex past).services) (hsvc : agent.isSvc ip) :
    NamesOwner past ip (agent.endpoint ip) := by
  have hinfo : agent.svcInfo = (svcIndex past).svcInfo := congrArg AddressBook.info hagent
  have howner : agent.svcIpToName = (svcIndex past).svcIpToName :=
    congrArg AddressBook.owner hagent
  obtain ⟨k, hk⟩ := Option.isSome_iff_exists.mp hsvc
  have hendpoint : agent.endpoint ip = k ++ ("/" ++ agent.svcType k) := by
    rw [Index.endpoint, hk]
  rw [howner] at hk
  obtain ⟨info, hknown, hip⟩ := (h.exact ip k).mp hk
  obtain ⟨svc, hlive, rfl, -, rfl⟩ := (h.recorded k info).mp hknown
  refine ⟨svc, hlive, hip, hk, ?_⟩
  have hknown' : (svcIndex past).svcInfo.lookup svc.key = some (svcRegistry.info svc) := hknown
  rw [hendpoint, Index.svcType, hinfo, hknown']
  rfl

theorem SvcInv.current (h : SvcInv past) : SvcsCurrent past where
  owned := by
    intro ip k hk
    obtain ⟨info, hinfo, hip⟩ := (h.exact ip k).mp hk
    exact ⟨hip ▸ (h.clusterIP_ne hinfo).1, info, hinfo, hip⟩
  known := fun k info hinfo _ => (h.exact _ k).mpr ⟨info, hinfo, rfl⟩
  named := by
    intro K _ keyOut agent hagent
    rw [getPodStatsKey_eq]
    exact ⟨h.namesOwner hagent, h.namesOwner hagent⟩

/-! ## One notice -/

/-- An update has an address; the service is recorded under no other address than the notice's,
and the address for no other service. -/
structure NoticeFits (agent : Index) (ev : Notice Service) : Prop where
  nonempty : ∀ svc, ev = .updated svc → svc.clusterIP ≠ ""
  name : ∀ info, agent.svcInfo.lookup ev.object.key = some info →
    info.clusterIP = ev.object.clusterIP
  addr : ev.object.clusterIP ≠ "None" →
    ∀ k, agent.svcIpToName.lookup ev.object.clusterIP = some k → k = ev.object.key

variable {ev : Notice Service}

theorem services_svcIndex_concat :
    (svcIndex (past ++ [ev])).services = svcRegistry.apply (svcIndex past).services ev := by
  rw [svcIndex_concat, services_onService]

theorem lookup_svcInfo_concat (k : String) :
    (svcIndex (past ++ [ev])).svcInfo.lookup k
      = (svcRegistry.apply (svcIndex past).services ev).info.lookup k :=
  congrArg (fun b => b.info.lookup k) services_svcIndex_concat

/-- A notice decides what is live under its own name, and only there. -/
theorem exists_live_concat {k : String} {P : Service → Prop} :
    (∃ svc, LiveService (past ++ [ev]) svc ∧ svc.key = k ∧ P svc)
      ↔ if ev.object.key = k then ∃ svc, ev = .updated svc ∧ P svc
        else ∃ svc, LiveService past svc ∧ svc.key = k ∧ P svc := by
  split_ifs with hkey
  · subst hkey
    constructor
    · rintro ⟨svc, hlive, hk, hP⟩
      rw [liveService_concat, if_pos hk.symm] at hlive
      exact ⟨svc, hlive, hP⟩
    · rintro ⟨svc, rfl, hP⟩
      exact ⟨svc, by rw [liveService_concat]; simp, rfl, hP⟩
  · refine exists_congr fun svc => and_congr_left fun hrest => ?_
    rw [liveService_concat, if_neg (fun he => hkey (he.trans hrest.1))]

/-- After a notice that fits, what is recorded is again what is live. -/
theorem SvcInv.recorded_concat (h : SvcInv past) (hfits : NoticeFits (svcIndex past) ev)
    (k : String) (info : SvcInfo) :
    (svcIndex (past ++ [ev])).svcInfo.lookup k = some info
      ↔ ∃ svc, LiveService (past ++ [ev]) svc ∧ svc.key = k ∧ svc.clusterIP ≠ "None" ∧
        svcRegistry.info svc = info := by
  rw [exists_live_concat, lookup_svcInfo_concat]
  split_ifs with hkey
  · subst hkey
    cases haddr : svcRegistry.addr ev.object with
    | none =>
        have hnone := svcRegistry_addr_eq_none.mp haddr
        rw [Registry.apply_of_none haddr]
        refine iff_of_false (fun hinfo => ?_) ?_
        · exact (h.clusterIP_ne hinfo).2 ((hfits.name info hinfo).trans hnone)
        · rintro ⟨svc, rfl, hne, -⟩
          exact hne hnone
    | some ip =>
        obtain ⟨hne, rfl⟩ := svcRegistry_addr_eq_some.mp haddr
        cases ev with
        | updated svc =>
            rw [Notice.object_updated] at haddr hne ⊢
            have hname : svc.key = svcRegistry.name svc := rfl
            rw [Registry.apply_updated haddr, AddressBook.lookup_info_record, if_pos hname]
            simp only [Notice.updated.injEq, exists_eq_left', Option.some.injEq]
            exact (and_iff_right hne).symm
        | deleted svc =>
            rw [Notice.object_deleted] at haddr ⊢
            have hname : svc.key = svcRegistry.name svc := rfl
            rw [Registry.apply_deleted haddr, AddressBook.lookup_info_forget, if_pos hname]
            simp
  · rw [Registry.lookup_info_apply_of_ne (fun he => hkey he.symm)]
    exact h.recorded k info

theorem svcInv_concat (h : SvcInv past) (hfits : NoticeFits (svcIndex past) ev) :
    SvcInv (past ++ [ev]) where
  exact := by
    rw [services_svcIndex_concat]
    cases haddr : svcRegistry.addr ev.object with
    | none =>
        rw [Registry.apply_of_none haddr]
        exact h.exact
    | some ip =>
        obtain ⟨hne, rfl⟩ := svcRegistry_addr_eq_some.mp haddr
        exact (Registry.exact_apply_iff h.exact haddr rfl).mpr ⟨hfits.name, hfits.addr hne⟩
  recorded := h.recorded_concat hfits
  nonempty := by
    intro svc hlive
    rw [liveService_concat] at hlive
    split_ifs at hlive
    · exact hfits.nonempty svc hlive
    · exact h.nonempty svc hlive

/-- The string itself as both addresses of a flow. -/
@[reducible] def stringFlowKey : FlowKey String := ⟨id, id, id, id, id⟩

/-- **A notice after which the index is current fits.** -/
theorem noticeFits_of_current (h : SvcInv past) (hcur : SvcsCurrent (past ++ [ev])) :
    NoticeFits (svcIndex past) ev := by
  have howner : ∀ ip, (svcIndex (past ++ [ev])).svcIpToName.lookup ip
      = (svcRegistry.apply (svcIndex past).services ev).owner.lookup ip := fun ip =>
    congrArg (fun b => b.owner.lookup ip) services_svcIndex_concat
  cases haddr : svcRegistry.addr ev.object with
  | none =>
      have hnone := svcRegistry_addr_eq_none.mp haddr
      refine ⟨?_, ?_, fun hne => absurd hnone hne⟩
      · rintro svc rfl
        rw [Notice.object_updated] at hnone
        rw [hnone]
        decide
      · intro info hinfo
        -- a flow from the recorded address is named after a live service, which is the notice's
        have hk := (h.exact info.clusterIP ev.object.key).mpr ⟨info, hinfo, rfl⟩
        have hk' : (svcIndex (past ++ [ev])).svcIpToName.lookup info.clusterIP
            = some ev.object.key := by
          rw [howner, Registry.apply_of_none haddr]
          exact hk
        obtain ⟨svc, hlive, hip, hown, -⟩ := (@SvcsCurrent.named _ hcur String stringFlowKey
          info.clusterIP (svcIndex (past ++ [ev])) rfl).1 (by
            rw [Index.isSvc]
            exact Option.isSome_iff_exists.mpr ⟨_, hk'⟩)
        have hkey : ev.object.key = svc.key := Option.some.inj (hk'.symm.trans hown)
        rw [liveService_concat, if_pos hkey] at hlive
        rw [hlive]
        exact hip.symm
  | some ip =>
      obtain ⟨hne, rfl⟩ := svcRegistry_addr_eq_some.mp haddr
      have hnonempty : ∀ svc, ev = .updated svc → svc.clusterIP ≠ "" := by
        rintro svc rfl
        rw [Notice.object_updated] at haddr
        refine (hcur.owned svc.clusterIP svc.key ?_).1
        rw [howner, Registry.apply_updated haddr, AddressBook.lookup_owner_record, if_pos rfl]
        rfl
      have hexact : (svcRegistry.apply (svcIndex past).services ev).Exact SvcInfo.clusterIP := by
        rw [← services_svcIndex_concat]
        intro ip k
        refine ⟨fun hk => (hcur.owned ip k hk).2, ?_⟩
        rintro ⟨info, hinfo, rfl⟩
        refine hcur.known k info hinfo ?_
        -- only an update could enter an empty address
        by_cases hkey : k = svcRegistry.name ev.object
        · have hinfo' := hinfo
          rw [show (svcIndex (past ++ [ev])).services.info.lookup k = _ from
            lookup_svcInfo_concat k] at hinfo'
          subst hkey
          cases ev with
          | updated svc =>
              rw [Notice.object_updated] at haddr hinfo'
              rw [Registry.apply_updated haddr, AddressBook.lookup_info_record, if_pos rfl] at hinfo'
              rw [← Option.some.inj hinfo']
              exact hnonempty svc rfl
          | deleted svc =>
              rw [Notice.object_deleted] at haddr hinfo'
              rw [Registry.apply_deleted haddr, AddressBook.lookup_info_forget, if_pos rfl] at hinfo'
              cases hinfo'
        · refine (h.clusterIP_ne (k := k) ?_).1
          rw [← hinfo, show (svcIndex (past ++ [ev])).services.info.lookup k = _ from
            lookup_svcInfo_concat k, Registry.lookup_info_apply_of_ne hkey]
          rfl
      obtain ⟨hname, hown⟩ := (Registry.exact_apply_iff h.exact haddr rfl).mp hexact
      exact ⟨hnonempty, hname, fun _ => hown⟩

/-- **For notices in order and addresses not shared, only updates can fail to fit.** -/
theorem noticeFits_iff (h : SvcInv past) {evs : List (Notice Service)}
    (horder : svcRegistry.InOrder evs) (hdist : DistinctLive evs) (hp : past ++ [ev] <+: evs) :
    NoticeFits (svcIndex past) ev ↔ ∀ svc, ev = .updated svc → KeepsAddress (svcIndex past) svc := by
  -- whoever owns the address of a live service is that service
  have hsole : ∀ evs' svc, evs' <+: evs → LiveService evs' svc → svc.clusterIP ≠ "" →
      svc.clusterIP ≠ "None" → ∀ svc', LiveService evs' svc' → svc'.clusterIP = svc.clusterIP →
      svc'.key = svc.key := fun evs' svc hp hlive h1 h2 svc' hlive' hip =>
    hdist evs' hp svc' svc hlive' hlive hip (hip ▸ h1) (hip ▸ h2)
  have hpast : past <+: evs := (List.prefix_append past [ev]).trans hp
  constructor
  · rintro hfits svc rfl
    exact ⟨hfits.nonempty svc rfl, hfits.name⟩
  · intro hkeeps
    cases ev with
    | updated svc =>
        obtain ⟨hne, hname⟩ := hkeeps svc rfl
        refine ⟨by rintro _ ⟨⟩; exact hne, hname, fun hnone k hk => ?_⟩
        obtain ⟨info, hinfo, hip⟩ := (h.exact _ k).mp hk
        obtain ⟨svc', hlive', rfl, -, rfl⟩ := (h.recorded k info).mp hinfo
        by_contra hkey
        have hlive : LiveService (past ++ [.updated svc]) svc := by
          rw [liveService_concat]
          simp
        refine hkey (hsole _ svc hp hlive hne hnone svc' ?_ hip)
        rw [liveService_concat, if_neg (Ne.symm hkey)]
        exact hlive'
    | deleted svc =>
        have hlive : LiveService past svc := horder past svc hp
        refine ⟨by rintro _ ⟨⟩, ?_, fun hnone k hk => ?_⟩
        · intro info hinfo
          obtain ⟨svc', hlive', hkey, -, rfl⟩ := (h.recorded _ info).mp hinfo
          have hsame : svc' = svc := by
            rw [LiveService, hkey] at hlive'
            exact Notice.updated.inj (Option.some.inj (hlive'.symm.trans hlive))
          rw [hsame]
          rfl
        · obtain ⟨info, hinfo, hip⟩ := (h.exact _ k).mp hk
          obtain ⟨svc', hlive', rfl, -, rfl⟩ := (h.recorded k info).mp hinfo
          exact hsole past svc hpast hlive (h.nonempty svc hlive) hnone svc' hlive' hip

end Inv

/--
**The service index is current all along exactly when every update keeps the service's address.**

In any history in order in which live services do not share addresses: each
address leads to its owner and each owner to its address, and `getPodStatsKey`
names the live owner with its present type, if and only if no update comes
without an address or with another than is recorded.
-/
theorem svcsCurrent_iff (evs : List (Notice Service)) (horder : svcRegistry.InOrder evs)
    (hdist : DistinctLive evs) :
    (∀ past, past <+: evs → SvcsCurrent past)
      ↔ ∀ past svc, past ++ [.updated svc] <+: evs → KeepsAddress (svcIndex past) svc := by
  have hiff := @forall_prefix_iff _ evs SvcsCurrent SvcInv
    (fun past ev => ∀ svc, ev = .updated svc → KeepsAddress (svcIndex past) svc) svcInv_init
    (fun _ h => h.current)
    (fun past ev hp h => by
      rw [← noticeFits_iff h horder hdist hp]
      exact ⟨noticeFits_of_current h, fun hfits => (svcInv_concat h hfits).current⟩)
    (fun past ev hp h hcond => svcInv_concat h ((noticeFits_iff h horder hdist hp).mpr hcond))
  rw [hiff]
  constructor
  · intro hall past svc hp
    exact hall past _ hp svc rfl
  · rintro hall past _ hp svc rfl
    exact hall past svc hp

/-- Where no two services are ever given one address, none share it. -/
theorem distinctLive_of_updates {evs : List (Notice Service)}
    (h : ∀ svc svc', .updated svc ∈ evs → .updated svc' ∈ evs → svc.clusterIP = svc'.clusterIP →
      svc.key = svc'.key) : DistinctLive evs := by
  have hmem : ∀ past svc, past <+: evs → LiveService past svc → .updated svc ∈ evs := by
    intro past svc hp hlive
    obtain ⟨l₁, l₂, rfl, -, -⟩ := findRev?_eq_some_iff.mp hlive
    exact hp.subset (by simp)
  intro past hp svc svc' hlive hlive' hip _ _
  exact h svc svc' (hmem past svc hp hlive) (hmem past svc' hp hlive') hip

/-- The name server's service. -/
def dnsAt (clusterIP : String) (type : ServiceType) : Service :=
  ⟨"kube-system", "dns", clusterIP, type⟩

/-- A service that changes its type and keeps its address. -/
def retyped : List (Notice Service) :=
  [.updated (dnsAt "10.96.0.10" .clusterIP), .updated (dnsAt "10.96.0.10" .nodePort)]

theorem svcsCurrent_iff_retyped : SvcsCurrent retyped := by
  refine (svcsCurrent_iff retyped ?_ ?_).mpr ?_ retyped List.prefix_rfl
  · exact (Registry.inOrder_nil.updated (dnsAt "10.96.0.10" .clusterIP)).updated
      (dnsAt "10.96.0.10" .nodePort)
  · refine distinctLive_of_updates fun svc svc' h h' _ => ?_
    simp only [retyped, List.mem_cons, Notice.updated.injEq, List.not_mem_nil, or_false] at h h'
    rcases h with rfl | rfl <;> rcases h' with rfl | rfl <;> rfl
  · have hkeeps : ∀ past ev, past ++ [ev] <+: retyped →
        ∀ svc, ev = .updated svc → KeepsAddress (svcIndex past) svc := by
      refine forall_concat_prefix_cons ?_ (forall_concat_prefix_cons ?_ forall_concat_prefix_nil)
      · rintro _ ⟨⟩
        exact ⟨by decide, fun info hinfo => absurd hinfo (by simp [svcIndex, Index.empty])⟩
      · rintro _ ⟨⟩
        refine ⟨by decide, fun info hinfo => ?_⟩
        have hfirst : (svcIndex [.updated (dnsAt "10.96.0.10" .clusterIP)]).svcInfo.lookup
            (dnsAt "10.96.0.10" .nodePort).key = some ⟨"10.96.0.10", "clusterIp"⟩ := by decide
        rw [← Option.some.inj (hfirst.symm.trans hinfo)]
        rfl
    exact fun past svc hp => hkeeps past _ hp svc rfl

/-- A service becomes an `ExternalName`: the empty address is entered, and the old one stays. -/
theorem external_name_entered :
    svcRegistry.InOrder [.updated (dnsAt "10.96.0.10" .clusterIP), .updated (dnsAt "" .externalName)] ∧
    DistinctLive [.updated (dnsAt "10.96.0.10" .clusterIP), .updated (dnsAt "" .externalName)] ∧
    (svcIndex [.updated (dnsAt "10.96.0.10" .clusterIP),
      .updated (dnsAt "" .externalName)]).svcIpToName.lookup "" = some "kube-system/dns" ∧
    (svcIndex [.updated (dnsAt "10.96.0.10" .clusterIP),
      .updated (dnsAt "" .externalName)]).svcIpToName.lookup "10.96.0.10"
      = some "kube-system/dns" ∧
    ¬ SvcsCurrent [.updated (dnsAt "10.96.0.10" .clusterIP), .updated (dnsAt "" .externalName)] := by
  have hentered : (svcIndex [.updated (dnsAt "10.96.0.10" .clusterIP),
      .updated (dnsAt "" .externalName)]).svcIpToName.lookup "" = some "kube-system/dns" := by
    decide
  refine ⟨?_, ?_, hentered, by decide, fun h => (h.owned _ _ hentered).1 rfl⟩
  · exact (Registry.inOrder_nil.updated (dnsAt "10.96.0.10" .clusterIP)).updated
      (dnsAt "" .externalName)
  · refine distinctLive_of_updates fun svc svc' h h' _ => ?_
    simp only [List.mem_cons, Notice.updated.injEq, List.not_mem_nil, or_false] at h h'
    rcases h with rfl | rfl <;> rcases h' with rfl | rfl <;> rfl

end Kubpf.Agent
