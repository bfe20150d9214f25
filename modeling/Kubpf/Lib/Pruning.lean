import Kubpf.Lib.BpfHash

/-!
# Deleting from a map in use

Somebody deletes some keys of a hash map, one after another, while events go on
writing its entries. A deletion makes room, which the next event of a new key may
take, so that the keys that are deleted last are met by a map that is full again;
and an event that found no room may find it later. All the same the outcome is
that of deleting the keys at one moment, with the events of each key in the order
they came in (`exists_moment`).

The proof takes one deletion at a time and moves it past the events that follow
(`exists_split`). They cannot all come before it: room that the deletion makes is
room for one more key. That key's events wait, and no others have to.
-/

namespace Kubpf.Lib

/-- Events on a hash map. Each writes the entry of at most one key, if there is room for it. -/
structure MapWriter (E K V : Type) [DecidableEq K] [Inhabited V] where
  act : BpfHash K V → E → BpfHash K V
  key : E → Option K
  /-- What the event makes of the entry. -/
  write : E → Option V → V
  act_none {m : BpfHash K V} {e : E} : key e = none → act m e = m
  act_full {m : BpfHash K V} {e : E} {k : K} : key e = some k → m.Full k → act m e = m
  maxEntries_act (m : BpfHash K V) (e : E) : (act m e).maxEntries = m.maxEntries
  val_act {m : BpfHash K V} {e : E} {k : K} : key e = some k → ¬ m.Full k →
    (act m e).val = Function.update m.val k (some (write e (m.val k)))

namespace BpfHash

variable {K V : Type} [DecidableEq K] {m m' : BpfHash K V} {k j : K}

theorem not_full_of_mem (h : k ∈ m.table.keys) : ¬ m.Full k := fun hf => hf.1 h

theorem keys_deleteElem (m : BpfHash K V) (k : K) :
    (m.deleteElem k).table.keys = m.table.keys.erase k := Finmap.keys_erase k m.table.dir

/-- A deletion makes room. -/
theorem not_full_deleteElem (h : k ∈ m.table.keys) (j : K) : ¬ (m.deleteElem k).Full j := by
  rintro ⟨-, hle⟩
  rw [keys_deleteElem, Finset.card_erase_of_mem h] at hle
  have hpos : 0 < m.table.keys.card := Finset.card_pos.mpr ⟨k, h⟩
  have hbound := m.bounded
  have hmax : (m.deleteElem k).maxEntries = m.maxEntries := rfl
  omega

/-- One deletion after another. -/
def deleteElems (m : BpfHash K V) (ks : List K) : BpfHash K V := ks.foldl deleteElem m

@[simp] theorem maxEntries_deleteElems (m : BpfHash K V) (ks : List K) :
    (m.deleteElems ks).maxEntries = m.maxEntries := by
  induction ks generalizing m with
  | nil => rfl
  | cons k ks ih => exact ih (m.deleteElem k)

variable [Inhabited V]

theorem val_eq_none_of_full (h : m.Full k) : m.val k = none := by
  rw [← Option.not_isSome_iff_eq_none, ← mem_keys]
  exact h.1

theorem val_deleteElems (m : BpfHash K V) (ks : List K) (j : K) :
    (m.deleteElems ks).val j = if j ∈ ks then none else m.val j := by
  induction ks generalizing m with
  | nil => rfl
  | cons k ks ih =>
      rw [deleteElems, List.foldl_cons]
      refine (ih (m.deleteElem k)).trans ?_
      rw [val_deleteElem]
      by_cases hj : j ∈ ks
      · rw [if_pos hj, if_pos (List.mem_cons_of_mem k hj)]
      · rw [if_neg hj]
        rcases eq_or_ne j k with rfl | hne
        · rw [Function.update_self, if_pos (List.mem_cons_self ..)]
        · rw [Function.update_of_ne hne, if_neg]
          rw [List.mem_cons, not_or]
          exact ⟨hne, hj⟩

theorem same_deleteElems (h : m.Same m') (ks : List K) :
    (m.deleteElems ks).Same (m'.deleteElems ks) := by
  refine ⟨?_, funext fun j => ?_⟩
  · rw [maxEntries_deleteElems, maxEntries_deleteElems, h.maxEntries]
  · rw [val_deleteElems, val_deleteElems, h.val]

/-- Deletions take no room. -/
theorem not_full_deleteElems (h : ¬ m.Full k) (ks : List K) : ¬ (m.deleteElems ks).Full k := by
  have hsub : (m.deleteElems ks).table.keys ⊆ insert k m.table.keys := by
    intro j hj
    rw [mem_keys, val_deleteElems] at hj
    split_ifs at hj
    · cases hj
    · exact Finset.mem_insert_of_mem (mem_keys.mpr hj)
  refine not_full_of_subset hsub (Finset.mem_insert_self ..) ?_
  rw [maxEntries_deleteElems]
  by_cases hk : k ∈ m.table.keys
  · rw [Finset.insert_eq_of_mem hk]
    exact m.bounded
  · rw [Finset.card_insert_of_notMem hk]
    exact Nat.lt_of_not_le fun hle => h ⟨hk, hle⟩

end BpfHash

namespace MapWriter

variable {E K V : Type} [DecidableEq K] [Inhabited V] (W : MapWriter E K V)
variable {m m' : BpfHash K V} {e : E} {k : K}

/-! ## Events -/

theorem val_act_of_ne (h : W.key e ≠ some k) : (W.act m e).val k = m.val k := by
  cases he : W.key e with
  | none => rw [W.act_none he]
  | some j =>
      have hne : k ≠ j := fun hk => h (by rw [he, hk])
      by_cases hfull : m.Full j
      · rw [W.act_full he hfull]
      · rw [W.val_act he hfull, Function.update_of_ne hne]

/-- An event that finds room adds its key. -/
theorem keys_act (he : W.key e = some k) (hroom : ¬ m.Full k) :
    (W.act m e).table.keys = insert k m.table.keys := by
  ext j
  rw [BpfHash.mem_keys, W.val_act he hroom, Finset.mem_insert, BpfHash.mem_keys]
  rcases eq_or_ne j k with rfl | hne
  · rw [Function.update_self]
    exact iff_of_true rfl (Or.inl rfl)
  · rw [Function.update_of_ne hne, or_iff_right hne]

theorem keys_act_subset : m.table.keys ⊆ (W.act m e).table.keys := by
  cases he : W.key e with
  | none => rw [W.act_none he]
  | some j =>
      by_cases hfull : m.Full j
      · rw [W.act_full he hfull]
      · rw [W.keys_act he hfull]
        exact Finset.subset_insert ..

theorem same_act (h : m.Same m') (e : E) : (W.act m e).Same (W.act m' e) := by
  refine ⟨?_, ?_⟩
  · rw [W.maxEntries_act, W.maxEntries_act, h.maxEntries]
  · cases he : W.key e with
    | none => rw [W.act_none he, W.act_none he, h.val]
    | some k =>
        by_cases hfull : m.Full k
        · rw [W.act_full he hfull, W.act_full he ((h.full_iff k).mp hfull), h.val]
        · rw [W.val_act he hfull, W.val_act he fun hf => hfull ((h.full_iff k).mpr hf), h.val]

/-- An event that finds room changes places with the deletion of another key. -/
theorem act_deleteElem {j : K} (he : W.key e = some j) (hroom : ¬ m.Full j) (hne : j ≠ k) :
    (W.act (m.deleteElem k) e).Same ((W.act m e).deleteElem k) := by
  have hroom' : ¬ (m.deleteElem k).Full j := BpfHash.not_full_deleteElems hroom [k]
  refine ⟨?_, ?_⟩
  · rw [W.maxEntries_act]
    exact (W.maxEntries_act m e).symm
  · rw [W.val_act he hroom', BpfHash.val_deleteElem, BpfHash.val_deleteElem, W.val_act he hroom,
      Function.update_of_ne hne, Function.update_comm hne]

/-- One event after another. -/
def acts (m : BpfHash K V) (es : List E) : BpfHash K V := es.foldl W.act m

@[simp] theorem acts_nil (m : BpfHash K V) : W.acts m [] = m := rfl

@[simp] theorem acts_cons (m : BpfHash K V) (e : E) (es : List E) :
    W.acts m (e :: es) = W.acts (W.act m e) es := rfl

theorem acts_append (m : BpfHash K V) (es es' : List E) :
    W.acts m (es ++ es') = W.acts (W.acts m es) es' := List.foldl_append

theorem same_acts (h : m.Same m') (es : List E) : (W.acts m es).Same (W.acts m' es) := by
  induction es generalizing m m' with
  | nil => exact h
  | cons e es ih => exact ih (W.same_act h e)

theorem maxEntries_acts (m : BpfHash K V) (es : List E) :
    (W.acts m es).maxEntries = m.maxEntries := by
  induction es generalizing m with
  | nil => rfl
  | cons e es ih => exact (ih _).trans (W.maxEntries_act m e)

theorem keys_acts_subset (es : List E) : m.table.keys ⊆ (W.acts m es).table.keys := by
  induction es generalizing m with
  | nil => exact Finset.Subset.refl _
  | cons e es ih => exact W.keys_act_subset.trans ih

theorem val_acts_of_ne {es : List E} (h : ∀ e ∈ es, W.key e ≠ some k) :
    (W.acts m es).val k = m.val k := by
  induction es generalizing m with
  | nil => rfl
  | cons e es ih =>
      rw [acts_cons, ih fun e' he' => h e' (List.mem_cons_of_mem e he')]
      exact W.val_act_of_ne (h e (List.mem_cons_self ..))

/-- **What a map makes of a key it holds** is what any other makes of that key's events alone. -/
theorem val_acts_eq (hm : k ∈ m.table.keys) (hm' : k ∈ m'.table.keys) (hval : m.val k = m'.val k)
    (es : List E) :
    (W.acts m es).val k = (W.acts m' (es.filter fun e => W.key e = some k)).val k := by
  induction es generalizing m m' with
  | nil => exact hval
  | cons e es ih =>
      by_cases he : W.key e = some k
      · rw [List.filter_cons, if_pos (decide_eq_true he), acts_cons, acts_cons]
        refine ih (W.keys_act_subset hm) (W.keys_act_subset hm') ?_
        rw [W.val_act he (BpfHash.not_full_of_mem hm), W.val_act he (BpfHash.not_full_of_mem hm'),
          Function.update_self, Function.update_self, hval]
      · rw [List.filter_cons, if_neg fun hd => he (of_decide_eq_true hd), acts_cons]
        exact ih (W.keys_act_subset hm) hm' ((W.val_act_of_ne he).trans hval)

/-! ## A key in place of another -/

/-- `a` holds `f` where `b` holds `k`. Neither has room left, unless it is the same key. -/
structure Swapped (f k : K) (a b : BpfHash K V) : Prop where
  maxEntries : a.maxEntries = b.maxEntries
  holds : f ∈ a.table.keys
  lacks : k ∈ b.table.keys
  keys : a.table.keys.erase f = b.table.keys.erase k
  val : ∀ j, j ≠ f → j ≠ k → a.val j = b.val j
  full : f = k ∨ a.maxEntries ≤ a.table.keys.card

namespace Swapped

variable {W} {f k j : K} {a b : BpfHash K V}

theorem card_eq (h : Swapped f k a b) : a.table.keys.card = b.table.keys.card := by
  have hcard := congrArg Finset.card h.keys
  rw [Finset.card_erase_of_mem h.holds, Finset.card_erase_of_mem h.lacks] at hcard
  have ha : 0 < a.table.keys.card := Finset.card_pos.mpr ⟨f, h.holds⟩
  have hb : 0 < b.table.keys.card := Finset.card_pos.mpr ⟨k, h.lacks⟩
  omega

theorem mem_keys_iff (h : Swapped f k a b) (hf : j ≠ f) (hk : j ≠ k) :
    j ∈ a.table.keys ↔ j ∈ b.table.keys := by
  have hmem : j ∈ a.table.keys.erase f ↔ j ∈ b.table.keys.erase k := by rw [h.keys]
  rw [Finset.mem_erase, Finset.mem_erase, and_iff_right hf, and_iff_right hk] at hmem
  exact hmem

theorem full_iff (h : Swapped f k a b) (hf : j ≠ f) (hk : j ≠ k) : a.Full j ↔ b.Full j := by
  rw [BpfHash.Full, BpfHash.Full, h.mem_keys_iff hf hk, h.maxEntries, h.card_eq]

/-- The key that went is not there, unless it came back. -/
theorem val_lacks (h : Swapped f k a b) (hne : f ≠ k) : a.val k = none := by
  have hnot : k ∉ a.table.keys.erase f := by
    rw [h.keys]
    exact Finset.notMem_erase k b.table.keys
  have hmem : k ∉ a.table.keys := fun hk => hnot (Finset.mem_erase.mpr ⟨Ne.symm hne, hk⟩)
  rw [BpfHash.mem_keys, Option.not_isSome_iff_eq_none] at hmem
  exact hmem

/-- The key that came is not there on the other side. -/
theorem val_holds (h : Swapped f k a b) (hne : f ≠ k) : b.val f = none := by
  have hnot : f ∉ b.table.keys.erase k := by
    rw [← h.keys]
    exact Finset.notMem_erase f a.table.keys
  have hmem : f ∉ b.table.keys := fun hf => hnot (Finset.mem_erase.mpr ⟨hne, hf⟩)
  rw [BpfHash.mem_keys, Option.not_isSome_iff_eq_none] at hmem
  exact hmem

/-- An event of the key that came. -/
theorem act_holds (h : Swapped f k a b) {e : E} (he : W.key e = some f) :
    Swapped f k (W.act a e) b := by
  have hroom : ¬ a.Full f := BpfHash.not_full_of_mem h.holds
  have hkeys : (W.act a e).table.keys = a.table.keys := by
    rw [W.keys_act he hroom, Finset.insert_eq_of_mem h.holds]
  refine ⟨(W.maxEntries_act a e).trans h.maxEntries, ?_, h.lacks, ?_, fun i hf hk => ?_, ?_⟩
  · rw [hkeys]
    exact h.holds
  · rw [hkeys]
    exact h.keys
  · rw [W.val_act he hroom, Function.update_of_ne hf]
    exact h.val i hf hk
  · rw [hkeys, W.maxEntries_act]
    exact h.full

/-- **Any other event** does the same on both sides, or is refused on one and lost with its key on
the other. -/
theorem act (h : Swapped f k a b) {e : E} (he : W.key e ≠ some f) :
    Swapped f k (W.act a e) (W.act b e) := by
  cases hkey : W.key e with
  | none =>
      rw [W.act_none hkey, W.act_none hkey]
      exact h
  | some j =>
      have hf : j ≠ f := fun hj => he (by rw [hkey, hj])
      rcases eq_or_ne j k with rfl | hk
      · -- of the key that went
        have hfull : a.Full j := by
          refine ⟨?_, h.full.resolve_left (Ne.symm hf)⟩
          rw [BpfHash.mem_keys, h.val_lacks (Ne.symm hf)]
          exact Bool.false_ne_true
        have hroom : ¬ b.Full j := BpfHash.not_full_of_mem h.lacks
        have hkeys : (W.act b e).table.keys = b.table.keys := by
          rw [W.keys_act hkey hroom, Finset.insert_eq_of_mem h.lacks]
        rw [W.act_full hkey hfull]
        refine ⟨h.maxEntries.trans (W.maxEntries_act b e).symm, h.holds, ?_, ?_, fun i hif hik => ?_,
          h.full⟩
        · rw [hkeys]
          exact h.lacks
        · rw [hkeys]
          exact h.keys
        · rw [W.val_act hkey hroom, Function.update_of_ne hik]
          exact h.val i hif hik
      · by_cases hfull : a.Full j
        · rw [W.act_full hkey hfull, W.act_full hkey ((h.full_iff hf hk).mp hfull)]
          exact h
        · have hfull' : ¬ b.Full j := fun hb => hfull ((h.full_iff hf hk).mpr hb)
          refine ⟨?_, W.keys_act_subset h.holds, W.keys_act_subset h.lacks, ?_, fun i hif hik => ?_,
            h.full.imp_right fun hle => ?_⟩
          · rw [W.maxEntries_act, W.maxEntries_act]
            exact h.maxEntries
          · rw [W.keys_act hkey hfull, W.keys_act hkey hfull', Finset.erase_insert_of_ne hf,
              Finset.erase_insert_of_ne hk, h.keys]
          · rw [W.val_act hkey hfull, W.val_act hkey hfull', h.val j hf hk]
            rcases eq_or_ne i j with rfl | hne
            · rw [Function.update_self, Function.update_self]
            · rw [Function.update_of_ne hne, Function.update_of_ne hne]
              exact h.val i hif hik
          · rw [W.maxEntries_act]
            exact hle.trans (Finset.card_le_card W.keys_act_subset)

theorem acts (h : Swapped f k a b) (es : List E) :
    Swapped f k (W.acts a es) (W.acts b (es.filter fun e => W.key e ≠ some f)) := by
  induction es generalizing a b with
  | nil => exact h
  | cons e es ih =>
      by_cases he : W.key e = some f
      · rw [List.filter_cons, if_neg (by simp [he])]
        exact ih (h.act_holds he)
      · rw [List.filter_cons, if_pos (by simp [he])]
        exact ih (h.act he)

end Swapped

/-! ## One deletion -/

variable {W}

/-- The event that takes the room a deletion has made. -/
theorem swapped_of_act {f : K} (hk : k ∈ m.table.keys) (he : W.key e = some f)
    (hf : f = k ∨ m.Full f) : Swapped f k (W.act (m.deleteElem k) e) m := by
  have hroom := BpfHash.not_full_deleteElem hk f
  have hkeys : (W.act (m.deleteElem k) e).table.keys = insert f (m.table.keys.erase k) := by
    rw [W.keys_act he hroom, BpfHash.keys_deleteElem]
  have hnew : f ∉ m.table.keys.erase k := by
    intro hmem
    obtain ⟨hne, hmem⟩ := Finset.mem_erase.mp hmem
    exact (hf.resolve_left hne).1 hmem
  refine ⟨W.maxEntries_act _ e, ?_, hk, ?_, fun i hif hik => ?_, hf.imp_right fun hfull => ?_⟩
  · rw [hkeys]
    exact Finset.mem_insert_self ..
  · rw [hkeys, Finset.erase_insert hnew]
  · rw [W.val_act he hroom, Function.update_of_ne hif, BpfHash.val_deleteElem,
      Function.update_of_ne hik]
  · rw [hkeys, Finset.card_insert_of_notMem hnew, Finset.card_erase_of_mem hk, W.maxEntries_act]
    exact hfull.2.trans (by omega)

/-- The two sides of a swap meet once the key that went is deleted, and the events of the key that
came are caught up with. -/
theorem Swapped.same_acts {f : K} {es : List E} (he : W.key e = some f)
    (h : Swapped f k (W.acts (W.act (m.deleteElem k) e) es)
      (W.acts m (es.filter fun e => W.key e ≠ some f)))
    (hk : k ∈ m.table.keys) (hf : f = k ∨ m.Full f) :
    (W.acts (W.act (m.deleteElem k) e) es).Same
      (W.acts ((W.acts m (es.filter fun e => W.key e ≠ some f)).deleteElem k)
        (e :: es.filter fun e => W.key e = some f)) := by
  have hroom := BpfHash.not_full_deleteElem hk f
  have hroom' := BpfHash.not_full_deleteElem h.lacks f
  have hsize := W.maxEntries_acts
    ((W.acts m (es.filter fun e => W.key e ≠ some f)).deleteElem k)
    (e :: es.filter fun e => W.key e = some f)
  refine ⟨h.maxEntries.trans hsize.symm, funext fun i => ?_⟩
  rcases eq_or_ne i f with rfl | hne
  · -- both start the key anew, with the same events
    refine W.val_acts_eq ?_ ?_ ?_ es
    · rw [W.keys_act he hroom]
      exact Finset.mem_insert_self ..
    · rw [W.keys_act he hroom']
      exact Finset.mem_insert_self ..
    · rw [W.val_act he hroom, W.val_act he hroom', Function.update_self, Function.update_self]
      refine congrArg (fun v => some (W.write e v)) ?_
      rw [BpfHash.val_deleteElem, BpfHash.val_deleteElem]
      by_cases hik : i = k
      · subst hik
        rw [Function.update_self, Function.update_self]
      · rw [Function.update_of_ne hik, Function.update_of_ne hik, h.val_holds hik]
        exact BpfHash.val_eq_none_of_full (hf.resolve_left hik)
  · rw [W.val_acts_of_ne (m := BpfHash.deleteElem _ k) fun e' he' => ?_, BpfHash.val_deleteElem]
    · rcases eq_or_ne i k with rfl | hik
      · rw [Function.update_self]
        exact h.val_lacks (Ne.symm hne)
      · rw [Function.update_of_ne hik]
        exact h.val i hne hik
    · rcases List.mem_cons.mp he' with rfl | he'
      · rw [he]
        exact fun hif => hne (Option.some.inj hif).symm
      · rw [of_decide_eq_true (List.mem_filter.mp he').2]
        exact fun hif => hne (Option.some.inj hif).symm

/-- The events of one key go last, in their order. -/
theorem filter_parts {f : K} (he : W.key e = some f) (es : List E) (o : Option K) :
    (es.filter (fun e => W.key e ≠ some f) ++ e :: es.filter fun e => W.key e = some f).filter
        (fun e => W.key e = o)
      = (e :: es).filter fun e => W.key e = o := by
  rw [List.filter_append, List.filter_cons, List.filter_cons, List.filter_filter, List.filter_filter]
  rcases eq_or_ne o (some f) with rfl | hne
  · have hnone : es.filter (fun e => decide (W.key e = some f) && decide (W.key e ≠ some f)) = [] := by
      rw [List.filter_eq_nil_iff]
      intro e' _
      simp
    simp only [hnone, Bool.and_self, List.nil_append]
  · have hnone : es.filter (fun e => decide (W.key e = o) && decide (W.key e = some f)) = [] := by
      rw [List.filter_eq_nil_iff]
      intro e' _ hboth
      obtain ⟨ho, hf⟩ := Bool.and_eq_true_iff.mp hboth
      exact hne ((of_decide_eq_true ho).symm.trans (of_decide_eq_true hf))
    have hall : es.filter (fun e => decide (W.key e = o) && decide (W.key e ≠ some f))
        = es.filter fun e => W.key e = o := by
      refine List.filter_congr fun e' _ => ?_
      by_cases ho : W.key e' = o
      · simp [ho, hne]
      · simp [ho]
    have hnot : ¬ decide (W.key e = o) = true := by
      rw [decide_eq_true_eq, he]
      exact Ne.symm hne
    rw [hnone, hall, if_neg hnot, if_neg hnot, List.append_nil]

/-- **A deletion moves past events**: past all but those of one key, which has the room. -/
theorem exists_split (hk : k ∈ m.table.keys) (es : List E) :
    ∃ (f : K) (before after : List E), (∀ e ∈ after, W.key e = some f) ∧
      (∀ o, (before ++ after).filter (fun e => W.key e = o) = es.filter fun e => W.key e = o) ∧
      (W.acts (m.deleteElem k) es).Same (W.acts ((W.acts m before).deleteElem k) after) := by
  induction es generalizing m with
  | nil => exact ⟨k, [], [], by simp, fun o => rfl, BpfHash.same_equiv.refl _⟩
  | cons e es ih =>
      by_cases hwait : ∃ f, W.key e = some f ∧ (f = k ∨ m.Full f)
      · obtain ⟨f, he, hf⟩ := hwait
        refine ⟨f, es.filter fun e => W.key e ≠ some f, e :: es.filter fun e => W.key e = some f,
          fun e' he' => ?_, fun o => ?_, ((swapped_of_act hk he hf).acts es).same_acts he hk hf⟩
        · rcases List.mem_cons.mp he' with rfl | he'
          · exact he
          · exact of_decide_eq_true (List.mem_filter.mp he').2
        · exact filter_parts he es o
      · -- there is room whether or not the key goes
        have hsame : (W.act (m.deleteElem k) e).Same ((W.act m e).deleteElem k) := by
          cases he : W.key e with
          | none =>
              rw [W.act_none he, W.act_none he]
              exact BpfHash.same_equiv.refl _
          | some f =>
              obtain ⟨hne, hroom⟩ := not_or.mp fun hf => hwait ⟨f, he, hf⟩
              exact W.act_deleteElem he hroom hne
        obtain ⟨f, before, after, hafter, hfilter, hsplit⟩ := ih (W.keys_act_subset hk)
        refine ⟨f, e :: before, after, hafter, fun o => ?_,
          BpfHash.same_equiv.trans (W.same_acts hsame es) hsplit⟩
        rw [List.cons_append, List.filter_cons, List.filter_cons, hfilter o]

/-! ## All of them -/

/-- The events of one key change places with deletions of others, where there was room. -/
theorem deleteElems_acts {f : K} {ks : List K} {es : List E} (hes : ∀ e ∈ es, W.key e = some f)
    (hroom : ¬ m.Full f) (hf : f ∉ ks) :
    ((W.acts m es).deleteElems ks).Same (W.acts (m.deleteElems ks) es) := by
  induction es generalizing m with
  | nil => exact BpfHash.same_equiv.refl _
  | cons e es ih =>
      have he := hes e (List.mem_cons_self ..)
      have hmem : f ∈ (W.act m e).table.keys := by
        rw [W.keys_act he hroom]
        exact Finset.mem_insert_self ..
      have hfirst : ((W.act m e).deleteElems ks).Same (W.act (m.deleteElems ks) e) := by
        refine ⟨?_, funext fun i => ?_⟩
        · rw [BpfHash.maxEntries_deleteElems, W.maxEntries_act, W.maxEntries_act,
            BpfHash.maxEntries_deleteElems]
        · rw [BpfHash.val_deleteElems, W.val_act he hroom,
            W.val_act he (BpfHash.not_full_deleteElems hroom ks), BpfHash.val_deleteElems,
            if_neg hf]
          rcases eq_or_ne i f with rfl | hne
          · rw [if_neg hf, Function.update_self, Function.update_self]
          · rw [Function.update_of_ne hne, Function.update_of_ne hne, BpfHash.val_deleteElems]
      exact BpfHash.same_equiv.trans
        (ih (fun e' he' => hes e' (List.mem_cons_of_mem e he')) (BpfHash.not_full_of_mem hmem))
        (W.same_acts hfirst es)

/-- The events of a key that is deleted may as well have come before. -/
theorem deleteElems_acts_of_mem {f : K} {ks : List K} {es : List E}
    (hes : ∀ e ∈ es, W.key e = some f) (hf : f ∈ ks) (m : BpfHash K V) :
    ((W.acts (m.deleteElem k) es).deleteElems ks).Same
      ((W.acts m es).deleteElems (k :: ks)) := by
  refine ⟨?_, funext fun i => ?_⟩
  · simp only [BpfHash.maxEntries_deleteElems, W.maxEntries_acts]
    rfl
  · rw [BpfHash.val_deleteElems, BpfHash.val_deleteElems]
    by_cases hi : i ∈ ks
    · rw [if_pos hi, if_pos (List.mem_cons_of_mem k hi)]
    · have hother : ∀ e ∈ es, W.key e ≠ some i := by
        intro e he hie
        have hif := Option.some.inj ((hes e he).symm.trans hie)
        exact hi (hif ▸ hf)
      rw [if_neg hi, W.val_acts_of_ne hother, W.val_acts_of_ne hother, BpfHash.val_deleteElem]
      rcases eq_or_ne i k with rfl | hne
      · rw [Function.update_self, if_pos (List.mem_cons_self ..)]
      · rw [Function.update_of_ne hne, if_neg]
        rw [List.mem_cons, not_or]
        exact ⟨hne, hi⟩

/-- What happens to the map: an event, or the deletion of a key. -/
inductive Op (E K : Type) where
  | event (e : E)
  | delete (k : K)

namespace Op

def event? : Op E K → Option E
  | .event e => some e
  | .delete _ => none

end Op

variable (W) in
/-- One operation. -/
def op (m : BpfHash K V) : Op E K → BpfHash K V
  | .event e => W.act m e
  | .delete k => m.deleteElem k

variable (W) in
/-- One operation after another. -/
def ops (m : BpfHash K V) (os : List (Op E K)) : BpfHash K V := os.foldl W.op m

theorem same_ops (h : m.Same m') (os : List (Op E K)) : (W.ops m os).Same (W.ops m' os) := by
  induction os generalizing m m' with
  | nil => exact h
  | cons o os ih =>
      cases o with
      | event e => exact ih (W.same_act h e)
      | delete k => exact ih (BpfHash.same_deleteElem h k)

theorem same_deleteElem_of_not_mem (h : k ∉ m.table.keys) : (m.deleteElem k).Same m := by
  refine ⟨rfl, ?_⟩
  rw [BpfHash.mem_keys, Option.not_isSome_iff_eq_none] at h
  rw [BpfHash.val_deleteElem, ← h, Function.update_eq_self]

/-- **Deletions come to one moment.** The events of each key keep their order, and the keys that
go at that moment are among those deleted. -/
theorem exists_moment (m : BpfHash K V) (os : List (Op E K)) :
    ∃ (before after : List E) (ks : List K), (∀ k ∈ ks, .delete k ∈ os) ∧
      (∀ o, (before ++ after).filter (fun e => W.key e = o)
        = (os.filterMap Op.event?).filter fun e => W.key e = o) ∧
      (W.ops m os).Same (W.acts ((W.acts m before).deleteElems ks) after) := by
  induction os generalizing m with
  | nil => exact ⟨[], [], [], by simp, fun o => rfl, BpfHash.same_equiv.refl m⟩
  | cons o os ih =>
      cases o with
      | event e =>
          obtain ⟨before, after, ks, hks, hfilter, hsame⟩ := ih (W.act m e)
          refine ⟨e :: before, after, ks, fun k hk => List.mem_cons_of_mem _ (hks k hk),
            fun o => ?_, hsame⟩
          have hevents : (Op.event e :: os).filterMap Op.event? = e :: os.filterMap Op.event? := rfl
          rw [hevents, List.cons_append, List.filter_cons, List.filter_cons, hfilter o]
      | delete k =>
          by_cases hk : k ∈ m.table.keys
          · obtain ⟨before, after, ks, hks, hfilter, hsame⟩ := ih (m.deleteElem k)
            obtain ⟨f, before', waiting, hwait, hfilter', hsplit⟩ := exists_split (W := W) hk before
            have hlast := BpfHash.same_equiv.trans hsame
              (W.same_acts (BpfHash.same_deleteElems hsplit ks) after)
            have hdelete : ∀ k' ∈ k :: ks, Op.delete k' ∈ Op.delete k :: os := by
              intro k' hk'
              rcases List.mem_cons.mp hk' with rfl | hk'
              · exact List.mem_cons_self ..
              · exact List.mem_cons_of_mem _ (hks k' hk')
            by_cases hf : f ∈ ks
            · -- the key that took the room goes too
              refine ⟨before' ++ waiting, after, k :: ks, hdelete, fun o => ?_, ?_⟩
              · rw [List.filter_append, hfilter' o, ← List.filter_append, hfilter o]
                rfl
              · rw [W.acts_append]
                exact BpfHash.same_equiv.trans hlast
                  (W.same_acts (deleteElems_acts_of_mem hwait hf _) after)
            · -- its events wait for the moment, and find room then
              refine ⟨before', waiting ++ after, k :: ks, hdelete, fun o => ?_, ?_⟩
              · rw [← List.append_assoc, List.filter_append, hfilter' o, ← List.filter_append,
                  hfilter o]
                rfl
              · rw [W.acts_append]
                have hroom := BpfHash.not_full_deleteElem (W.keys_acts_subset before' hk) f
                exact BpfHash.same_equiv.trans hlast
                  (W.same_acts (deleteElems_acts hwait hroom hf) after)
          · obtain ⟨before, after, ks, hks, hfilter, hsame⟩ := ih m
            have hgone := same_ops (W := W) (same_deleteElem_of_not_mem hk) os
            exact ⟨before, after, ks, fun k' hk' => List.mem_cons_of_mem _ (hks k' hk'), hfilter,
              BpfHash.same_equiv.trans hgone hsame⟩

end MapWriter

end Kubpf.Lib
