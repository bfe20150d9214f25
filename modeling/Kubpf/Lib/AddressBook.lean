import Mathlib.Data.Finmap
import Mathlib.Data.List.Chain

/-!
# Address books

Two maps kept side by side: what is known of each name, and which name owns each
address. Objects come and go, each under a name and an address, and a book is
what a history of notices about them leaves behind.

Neither map is computed from the other, so nothing in the structure makes them
agree. What a history leaves in each is said by `info_book` and `owner_book`: the
last notice of a name decides the one, the last notice at an address the other.
When those two are not the same notice, the maps drift apart.
-/

namespace Kubpf.Lib

/-! ## Lists as histories -/

/-- The last element that satisfies `p` has none behind it. -/
theorem findRev?_eq_some_iff {α : Type} {p : α → Bool} {l : List α} {x : α} :
    l.findRev? p = some x ↔ ∃ l₁ l₂, l = l₁ ++ x :: l₂ ∧ p x ∧ ∀ y ∈ l₂, ¬ p y := by
  rw [List.findRev?_eq_find?_reverse, List.find?_eq_some_iff_append]
  constructor
  · rintro ⟨hx, as, bs, hl, has⟩
    refine ⟨bs.reverse, as.reverse, ?_, hx, ?_⟩
    · rw [← List.reverse_reverse l, hl]
      simp
    · intro y hy
      simpa using has y (List.mem_reverse.mp hy)
  · rintro ⟨l₁, l₂, rfl, hx, hl₂⟩
    refine ⟨hx, l₂.reverse, l₁.reverse, by simp, ?_⟩
    intro y hy
    simpa using hl₂ y (List.mem_reverse.mp hy)

theorem findRev?_concat {α : Type} (p : α → Bool) (l : List α) (x : α) :
    (l ++ [x]).findRev? p = if p x then some x else l.findRev? p := by
  rw [List.findRev?_eq_find?_reverse, List.reverse_append, List.reverse_singleton,
    List.singleton_append, List.find?_cons, List.findRev?_eq_find?_reverse]
  cases p x <;> rfl

/-- What one element after the other preserves holds at every point of a history. -/
theorem forall_prefix_of_step {α : Type} {evs : List α} {Inv : List α → Prop} (hinit : Inv [])
    (hstep : ∀ past ev, past ++ [ev] <+: evs → Inv past → Inv (past ++ [ev])) :
    ∀ past, past <+: evs → Inv past := by
  intro past
  induction past using List.reverseRecOn with
  | nil => exact fun _ => hinit
  | append_singleton past ev ih =>
      intro hp
      exact hstep past ev hp (ih ((List.prefix_append past [ev]).trans hp))

/--
**What holds at every point of a history**, when an invariant turns it into a
condition on the next element.
-/
theorem forall_prefix_iff {α : Type} {evs : List α} {Good Inv : List α → Prop}
    {Cond : List α → α → Prop} (hinit : Inv []) (hgood : ∀ past, Inv past → Good past)
    (hiff : ∀ past ev, past ++ [ev] <+: evs → Inv past → (Good (past ++ [ev]) ↔ Cond past ev))
    (hstep : ∀ past ev, past ++ [ev] <+: evs → Inv past → Cond past ev → Inv (past ++ [ev])) :
    (∀ past, past <+: evs → Good past) ↔ ∀ past ev, past ++ [ev] <+: evs → Cond past ev := by
  constructor
  · intro hall
    have hinv := forall_prefix_of_step hinit fun past ev hp hi =>
      hstep past ev hp hi ((hiff past ev hp hi).mp (hall _ hp))
    intro past ev hp
    have hi := hinv past ((List.prefix_append past [ev]).trans hp)
    exact (hiff past ev hp hi).mp (hall _ hp)
  · intro hcond
    have hinv := forall_prefix_of_step hinit fun past ev hp hi =>
      hstep past ev hp hi (hcond past ev hp)
    exact fun past hp => hgood past (hinv past hp)

/-- The points of a history, one after the other. -/
theorem forall_concat_prefix_cons {α : Type} {P : List α → α → Prop} {x : α} {l : List α}
    (h0 : P [] x) (h : ∀ past ev, past ++ [ev] <+: l → P (x :: past) ev) :
    ∀ past ev, past ++ [ev] <+: x :: l → P past ev := by
  intro past ev hp
  cases past with
  | nil =>
      obtain ⟨rfl, -⟩ := List.cons_prefix_cons.mp hp
      exact h0
  | cons y past =>
      obtain ⟨rfl, hp'⟩ := List.cons_prefix_cons.mp hp
      exact h past ev hp'

theorem forall_concat_prefix_nil {α : Type} {P : List α → α → Prop} :
    ∀ past ev, past ++ [ev] <+: ([] : List α) → P past ev := by
  intro past ev hp
  simp at hp

/-! ## The two maps -/

/-- What is known of each name, and who owns each address. -/
structure AddressBook (N A I : Type) [DecidableEq N] [DecidableEq A] where
  info : Finmap (fun _ : N => I)
  owner : Finmap (fun _ : A => N)

namespace AddressBook

variable {N A I : Type} [DecidableEq N] [DecidableEq A]

def empty : AddressBook N A I := ⟨∅, ∅⟩

/-- Enter a name at an address. -/
def record (b : AddressBook N A I) (n : N) (a : A) (i : I) : AddressBook N A I where
  info := b.info.insert n i
  owner := b.owner.insert a n

/-- Strike out a name, and whoever owns the address. -/
def forget (b : AddressBook N A I) (n : N) (a : A) : AddressBook N A I where
  info := b.info.erase n
  owner := b.owner.erase a

variable (b : AddressBook N A I) (n n' : N) (a a' : A) (i : I)

theorem lookup_info_record :
    (b.record n a i).info.lookup n' = if n' = n then some i else b.info.lookup n' := by
  split_ifs with h
  · rw [h]; exact Finmap.lookup_insert b.info
  · exact Finmap.lookup_insert_of_ne b.info h

theorem lookup_owner_record :
    (b.record n a i).owner.lookup a' = if a' = a then some n else b.owner.lookup a' := by
  split_ifs with h
  · rw [h]; exact Finmap.lookup_insert b.owner
  · exact Finmap.lookup_insert_of_ne b.owner h

theorem lookup_info_forget :
    (b.forget n a).info.lookup n' = if n' = n then none else b.info.lookup n' := by
  split_ifs with h
  · rw [h]; exact Finmap.lookup_erase n b.info
  · exact Finmap.lookup_erase_ne h

theorem lookup_owner_forget :
    (b.forget n a).owner.lookup a' = if a' = a then none else b.owner.lookup a' := by
  split_ifs with h
  · rw [h]; exact Finmap.lookup_erase a b.owner
  · exact Finmap.lookup_erase_ne h

/-! ## Agreement -/

/-- Whoever owns an address is known to have it. -/
def Consistent (addrOf : I → A) (b : AddressBook N A I) : Prop :=
  ∀ a n, b.owner.lookup a = some n → ∃ i, b.info.lookup n = some i ∧ addrOf i = a

/-- The name owns no address but this one. -/
def OwnsOnly (b : AddressBook N A I) (n : N) (a : A) : Prop :=
  ∀ a', b.owner.lookup a' = some n → a' = a

variable {addrOf : I → A} {b} {n} {a} {i}

/-- **Entering a name keeps the agreement exactly when it leaves no older address behind.** -/
theorem consistent_record_iff (h : Consistent addrOf b) (hi : addrOf i = a) :
    Consistent addrOf (b.record n a i) ↔ b.OwnsOnly n a := by
  constructor
  · intro hrec a' hown
    by_contra hne
    obtain ⟨i', hi', ha'⟩ := hrec a' n (by rw [lookup_owner_record, if_neg hne]; exact hown)
    rw [lookup_info_record, if_pos rfl] at hi'
    exact hne (by rw [← ha', ← Option.some.inj hi', hi])
  · intro honly a' n' hown
    rw [lookup_owner_record] at hown
    rw [lookup_info_record]
    split_ifs at hown with ha
    · have hn : n' = n := (Option.some.inj hown).symm
      exact ⟨i, if_pos hn, hi.trans ha.symm⟩
    · have hn : n' ≠ n := by
        rintro rfl
        exact ha (honly a' hown)
      rw [if_neg hn]
      exact h a' n' hown

/-- **And so does striking one out.** -/
theorem consistent_forget_iff (h : Consistent addrOf b) :
    Consistent addrOf (b.forget n a) ↔ b.OwnsOnly n a := by
  constructor
  · intro hforget a' hown
    by_contra hne
    obtain ⟨i', hi', -⟩ := hforget a' n (by rw [lookup_owner_forget, if_neg hne]; exact hown)
    rw [lookup_info_forget, if_pos rfl] at hi'
    cases hi'
  · intro honly a' n' hown
    rw [lookup_owner_forget] at hown
    split_ifs at hown with ha
    have hn : n' ≠ n := by
      rintro rfl
      exact ha (honly a' hown)
    rw [lookup_info_forget, if_neg hn]
    exact h a' n' hown

/-- Neither map mentions the name. -/
def Absent (b : AddressBook N A I) (n : N) : Prop :=
  b.info.lookup n = none ∧ ∀ a, b.owner.lookup a ≠ some n

theorem Absent.record {n' : N} (h : b.Absent n) (hne : n ≠ n') : (b.record n' a i).Absent n := by
  refine ⟨by rw [lookup_info_record, if_neg hne]; exact h.1, fun a' hown => ?_⟩
  rw [lookup_owner_record] at hown
  split_ifs at hown
  · exact hne (Option.some.inj hown).symm
  · exact h.2 a' hown

theorem Absent.forget {n' : N} (h : b.Absent n) : (b.forget n' a).Absent n := by
  refine ⟨?_, fun a' hown => ?_⟩
  · rw [lookup_info_forget]
    split_ifs
    · rfl
    · exact h.1
  · rw [lookup_owner_forget] at hown
    split_ifs at hown
    exact h.2 a' hown

/-- A name that is not known owns nothing, as long as the maps agree. -/
theorem Consistent.absent_iff (h : Consistent addrOf b) :
    b.Absent n ↔ b.info.lookup n = none := by
  refine ⟨fun habs => habs.1, fun hnone => ⟨hnone, fun a hown => ?_⟩⟩
  obtain ⟨i, hi, -⟩ := h a n hown
  exact absurd (hnone.symm.trans hi) (by simp)

/-- **A name that is struck out is gone exactly when it owned nothing else.** -/
theorem absent_forget_self_iff : (b.forget n a).Absent n ↔ b.OwnsOnly n a := by
  constructor
  · rintro ⟨-, hno⟩ a' hown
    by_contra hne
    exact hno a' (by rw [lookup_owner_forget, if_neg hne]; exact hown)
  · intro honly
    refine ⟨by rw [lookup_info_forget, if_pos rfl], fun a' hown => ?_⟩
    rw [lookup_owner_forget] at hown
    split_ifs at hown with ha
    exact ha (honly a' hown)

/-- The two maps are each other's inverse. -/
def Exact (addrOf : I → A) (b : AddressBook N A I) : Prop :=
  ∀ a n, b.owner.lookup a = some n ↔ ∃ i, b.info.lookup n = some i ∧ addrOf i = a

/-- The name is not known under another address, nor the address owned by another name. -/
def Fits (addrOf : I → A) (b : AddressBook N A I) (n : N) (a : A) : Prop :=
  (∀ i, b.info.lookup n = some i → addrOf i = a) ∧ ∀ n', b.owner.lookup a = some n' → n' = n

theorem exact_empty : Exact addrOf (empty : AddressBook N A I) := by
  intro a n
  simp [empty]

/-- A name known under `a` or not at all does not own another address. -/
theorem Exact.owner_elsewhere {n' : N} {a' : A} (h : Exact addrOf b)
    (hname : ∀ i, b.info.lookup n = some i → addrOf i = a) (ha : a' ≠ a)
    (hown : b.owner.lookup a' = some n') :
    n' ≠ n ∧ ∃ i, b.info.lookup n' = some i ∧ addrOf i = a' := by
  obtain ⟨i, hi, ha'⟩ := (h a' n').mp hown
  refine ⟨?_, i, hi, ha'⟩
  rintro rfl
  exact ha (ha'.symm.trans (hname i hi))

/-- **Entering a name keeps the maps inverse exactly when name and address fit each other.** -/
theorem exact_record_iff (h : Exact addrOf b) (hi : addrOf i = a) :
    Exact addrOf (b.record n a i) ↔ b.Fits addrOf n a := by
  constructor
  · intro hrec
    constructor
    · intro i' hi'
      by_contra hne
      -- the old address would still lead to the name
      have hown : (b.record n a i).owner.lookup (addrOf i') = some n := by
        rw [lookup_owner_record, if_neg hne]
        exact (h _ n).mpr ⟨i', hi', rfl⟩
      obtain ⟨i'', hi'', ha⟩ := (hrec _ n).mp hown
      rw [lookup_info_record, if_pos rfl] at hi''
      exact hne (by rw [← ha, ← Option.some.inj hi'', hi])
    · intro n' hown
      by_contra hne
      -- the old owner would still be known at the address
      obtain ⟨i', hi', ha⟩ := (h a n').mp hown
      have hown' := (hrec a n').mpr ⟨i', by rw [lookup_info_record, if_neg hne]; exact hi', ha⟩
      rw [lookup_owner_record, if_pos rfl] at hown'
      exact hne (Option.some.inj hown').symm
  · rintro ⟨hname, haddr⟩ a' n'
    rw [lookup_owner_record, lookup_info_record]
    by_cases ha : a' = a
    · subst ha
      rw [if_pos rfl]
      constructor
      · intro hn
        rw [if_pos (Option.some.inj hn).symm]
        exact ⟨i, rfl, hi⟩
      · rintro ⟨i', hi', ha'⟩
        split_ifs at hi' with hn
        · rw [hn]
        · rw [haddr n' ((h a' n').mpr ⟨i', hi', ha'⟩)]
    · rw [if_neg ha]
      constructor
      · intro hown
        obtain ⟨hn, hknown⟩ := h.owner_elsewhere hname ha hown
        rw [if_neg hn]
        exact hknown
      · rintro ⟨i', hi', ha'⟩
        split_ifs at hi' with hn
        · exact absurd (ha'.symm.trans ((congrArg addrOf (Option.some.inj hi')).symm.trans hi)) ha
        · exact (h a' n').mpr ⟨i', hi', ha'⟩

/-- **And so does striking one out.** -/
theorem exact_forget_iff (h : Exact addrOf b) :
    Exact addrOf (b.forget n a) ↔ b.Fits addrOf n a := by
  constructor
  · intro hforget
    constructor
    · intro i' hi'
      by_contra hne
      have hown : (b.forget n a).owner.lookup (addrOf i') = some n := by
        rw [lookup_owner_forget, if_neg hne]
        exact (h _ n).mpr ⟨i', hi', rfl⟩
      obtain ⟨i'', hi'', -⟩ := (hforget _ n).mp hown
      rw [lookup_info_forget, if_pos rfl] at hi''
      cases hi''
    · intro n' hown
      by_contra hne
      obtain ⟨i', hi', ha⟩ := (h a n').mp hown
      have hown' := (hforget a n').mpr ⟨i', by rw [lookup_info_forget, if_neg hne]; exact hi', ha⟩
      rw [lookup_owner_forget, if_pos rfl] at hown'
      cases hown'
  · rintro ⟨hname, haddr⟩ a' n'
    rw [lookup_owner_forget, lookup_info_forget]
    constructor
    · intro hown
      split_ifs at hown with ha
      obtain ⟨hn, hknown⟩ := h.owner_elsewhere hname ha hown
      rw [if_neg hn]
      exact hknown
    · rintro ⟨i', hi', ha'⟩
      split_ifs at hi' with hn
      have hown := (h a' n').mpr ⟨i', hi', ha'⟩
      have ha : a' ≠ a := by
        rintro rfl
        exact hn (haddr n' hown)
      rw [if_neg ha]
      exact hown

end AddressBook

/-! ## Histories -/

/-- An object was added or changed, or it is gone. -/
inductive Notice (O : Type) where
  | updated (o : O)
  | deleted (o : O)
  deriving DecidableEq, Repr

/-- The object a notice is about, as the notice has it. -/
def Notice.object {O : Type} : Notice O → O
  | .updated o => o
  | .deleted o => o

@[simp] theorem Notice.object_updated {O : Type} (o : O) : (updated o).object = o := rfl
@[simp] theorem Notice.object_deleted {O : Type} (o : O) : (deleted o).object = o := rfl

/-- How objects are entered: an object without an address is passed over. -/
structure Registry (O N A I : Type) where
  name : O → N
  addr : O → Option A
  info : O → I

namespace Registry

variable {O N A I : Type} (R : Registry O N A I)

section Names

variable [DecidableEq N]

/-- The last notice of a name. -/
def lastNotice (n : N) (evs : List (Notice O)) : Option (Notice O) :=
  evs.findRev? fun ev => R.name ev.object = n

theorem lastNotice_concat (n : N) (evs : List (Notice O)) (ev : Notice O) :
    R.lastNotice n (evs ++ [ev])
      = if R.name ev.object = n then some ev else R.lastNotice n evs := by
  rw [lastNotice, findRev?_concat]
  simp only [decide_eq_true_eq]
  rfl

/-- Only what was added is deleted, and a deletion carries the last state there was. -/
def InOrder (evs : List (Notice O)) : Prop :=
  ∀ past o, past ++ [.deleted o] <+: evs → R.lastNotice (R.name o) past = some (.updated o)

/-- The last that was heard of a name is that it is gone. -/
def Gone (n : N) (evs : List (Notice O)) : Prop :=
  ∃ o, R.lastNotice n evs = some (.deleted o)

theorem gone_concat {n : N} {evs : List (Notice O)} {ev : Notice O} :
    R.Gone n (evs ++ [ev])
      ↔ if R.name ev.object = n then ∃ o, ev = .deleted o else R.Gone n evs := by
  rw [Gone, lastNotice_concat]
  split_ifs with h
  · simp
  · rfl

/-- The last notice of a name, among those that are not passed over. -/
def lastOf (n : N) (evs : List (Notice O)) : Option (Notice O) :=
  evs.findRev? fun ev => R.name ev.object = n ∧ (R.addr ev.object).isSome

theorem lastOf_concat (n : N) (evs : List (Notice O)) (ev : Notice O) :
    R.lastOf n (evs ++ [ev])
      = if R.name ev.object = n ∧ (R.addr ev.object).isSome then some ev else R.lastOf n evs := by
  rw [lastOf, findRev?_concat]
  simp only [decide_eq_true_eq]
  rfl

/-- The notices of one name. -/
def ofName (n : N) (evs : List (Notice O)) : List (Notice O) :=
  evs.filter fun ev => R.name ev.object = n

/-- The same notices, in the same order for each name. -/
def SameOrder (s t : List (Notice O)) : Prop := ∀ n, R.ofName n s = R.ofName n t

/-- While it lives, an object keeps its address. -/
def FixedAddr (evs : List (Notice O)) : Prop :=
  ∀ n, (R.ofName n evs).IsChain fun ev ev' =>
    ∀ o, ev = .updated o → R.addr ev'.object = R.addr o

/-- The last that was heard of a name is that it is at this address. -/
def LiveAt (n : N) (a : A) (evs : List (Notice O)) : Prop :=
  ∃ o, R.lastOf n evs = some (.updated o) ∧ R.addr o = some a

variable {R} {s t : List (Notice O)}

theorem inOrder_nil : R.InOrder [] := by
  intro past o h
  simp at h

/-- A history is in order as long as each notice is. -/
theorem inOrder_concat {evs : List (Notice O)} {ev : Notice O} :
    R.InOrder (evs ++ [ev])
      ↔ R.InOrder evs ∧ ∀ o, ev = .deleted o → R.lastNotice (R.name o) evs = some (.updated o) := by
  constructor
  · intro h
    refine ⟨fun past o hp => h past o (hp.trans (List.prefix_append evs [ev])), ?_⟩
    rintro o rfl
    exact h evs o (List.prefix_refl _)
  · rintro ⟨h, hev⟩ past o hp
    rcases List.prefix_concat_iff.mp hp with heq | hp
    · obtain ⟨rfl, hlast⟩ := List.append_inj' heq rfl
      exact hev o (List.cons.inj hlast).1.symm
    · exact h past o hp

/-- An update can come at any time. -/
theorem InOrder.updated {evs : List (Notice O)} (h : R.InOrder evs) (o : O) :
    R.InOrder (evs ++ [.updated o]) :=
  inOrder_concat.mpr ⟨h, fun _ heq => by cases heq⟩

/-- A deletion comes with the last state. -/
theorem InOrder.deleted {evs : List (Notice O)} (h : R.InOrder evs) (o : O)
    (hlast : R.lastNotice (R.name o) evs = some (.updated o)) :
    R.InOrder (evs ++ [.deleted o]) :=
  inOrder_concat.mpr ⟨h, fun _ heq => by cases heq; exact hlast⟩

theorem lastOf_eq (n : N) (evs : List (Notice O)) :
    R.lastOf n evs = (R.ofName n evs).findRev? fun ev => (R.addr ev.object).isSome := by
  rw [lastOf, ofName, List.findRev?_eq_find?_reverse, List.findRev?_eq_find?_reverse,
    ← List.filter_reverse, List.find?_filter]
  simp

theorem SameOrder.lastOf_eq (h : R.SameOrder s t) (n : N) : R.lastOf n s = R.lastOf n t := by
  rw [Registry.lastOf_eq, Registry.lastOf_eq, h n]

/-- Neighbouring notices of different names may change places. -/
theorem sameOrder_swap {ev ev' : Notice O} (hne : R.name ev.object ≠ R.name ev'.object)
    (l₁ l₂ : List (Notice O)) : R.SameOrder (l₁ ++ ev :: ev' :: l₂) (l₁ ++ ev' :: ev :: l₂) := by
  intro n
  rw [ofName, ofName, List.filter_append, List.filter_append]
  congr 1
  by_cases h : R.name ev.object = n
  · have h' : R.name ev'.object ≠ n := fun h' => hne (h.trans h'.symm)
    simp [h, h']
  · simp [List.filter_cons, h]

/-- Objects that never change their address keep it while they live. -/
theorem fixedAddr_of_forall (h : ∀ ev ∈ s, ∀ ev' ∈ s, R.name ev.object = R.name ev'.object →
    R.addr ev.object = R.addr ev'.object) : R.FixedAddr s := by
  intro n
  refine List.Pairwise.isChain (List.pairwise_of_forall_mem_list fun ev hev ev' hev' => ?_)
  obtain ⟨hmem, hn⟩ := List.mem_filter.mp hev
  obtain ⟨hmem', hn'⟩ := List.mem_filter.mp hev'
  rintro o rfl
  exact h ev' hmem' _ hmem ((of_decide_eq_true hn').trans (of_decide_eq_true hn).symm)

theorem SameOrder.fixedAddr (h : R.SameOrder s t) (hs : R.FixedAddr s) : R.FixedAddr t :=
  fun n => h n ▸ hs n

end Names

section Addresses

variable [DecidableEq A]

/-- The last notice at an address. -/
def lastAt (a : A) (evs : List (Notice O)) : Option (Notice O) :=
  evs.findRev? fun ev => R.addr ev.object = some a

theorem lastAt_concat (a : A) (evs : List (Notice O)) (ev : Notice O) :
    R.lastAt a (evs ++ [ev])
      = if R.addr ev.object = some a then some ev else R.lastAt a evs := by
  rw [lastAt, findRev?_concat]
  simp only [decide_eq_true_eq]
  rfl

/-- The last notice at an address is about this name. -/
def LastBy (n : N) (a : A) (evs : List (Notice O)) : Prop :=
  ∃ ev, R.lastAt a evs = some ev ∧ R.name ev.object = n

end Addresses

/-! ## What a history leaves -/

variable [DecidableEq N] [DecidableEq A]

def apply (b : AddressBook N A I) : Notice O → AddressBook N A I
  | .updated o =>
    match R.addr o with
    | some a => b.record (R.name o) a (R.info o)
    | none => b
  | .deleted o =>
    match R.addr o with
    | some a => b.forget (R.name o) a
    | none => b

section Apply

variable {R} {b : AddressBook N A I} {ev : Notice O} {a : A} {addrOf : I → A}

theorem apply_of_none (h : R.addr ev.object = none) : R.apply b ev = b := by
  cases ev with
  | updated o => rw [Notice.object_updated] at h; rw [apply, h]
  | deleted o => rw [Notice.object_deleted] at h; rw [apply, h]

theorem apply_updated {o : O} (h : R.addr o = some a) :
    R.apply b (.updated o) = b.record (R.name o) a (R.info o) := by
  rw [apply, h]

theorem apply_deleted {o : O} (h : R.addr o = some a) :
    R.apply b (.deleted o) = b.forget (R.name o) a := by
  rw [apply, h]

/-- A notice says nothing of other names. -/
theorem lookup_info_apply_of_ne {n : N} (hne : n ≠ R.name ev.object) :
    (R.apply b ev).info.lookup n = b.info.lookup n := by
  cases ha : R.addr ev.object with
  | none => rw [apply_of_none ha]
  | some a =>
      cases ev with
      | updated o =>
          rw [Notice.object_updated] at ha hne
          rw [apply_updated ha, AddressBook.lookup_info_record, if_neg hne]
      | deleted o =>
          rw [Notice.object_deleted] at ha hne
          rw [apply_deleted ha, AddressBook.lookup_info_forget, if_neg hne]

theorem Absent.apply {n : N} (h : b.Absent n) (hne : n ≠ R.name ev.object) :
    (R.apply b ev).Absent n := by
  cases ha : R.addr ev.object with
  | none => rw [apply_of_none ha]; exact h
  | some a =>
      cases ev with
      | updated o =>
          rw [Notice.object_updated] at ha hne
          rw [apply_updated ha]
          exact h.record hne
      | deleted o =>
          rw [Notice.object_deleted] at ha
          rw [apply_deleted ha]
          exact h.forget

theorem consistent_apply_iff (h : b.Consistent addrOf) (ha : R.addr ev.object = some a)
    (hi : addrOf (R.info ev.object) = a) :
    (R.apply b ev).Consistent addrOf ↔ b.OwnsOnly (R.name ev.object) a := by
  cases ev with
  | updated o =>
      rw [Notice.object_updated] at ha hi ⊢
      rw [apply_updated ha]
      exact AddressBook.consistent_record_iff h hi
  | deleted o =>
      rw [Notice.object_deleted] at ha ⊢
      rw [apply_deleted ha]
      exact AddressBook.consistent_forget_iff h

theorem exact_apply_iff (h : b.Exact addrOf) (ha : R.addr ev.object = some a)
    (hi : addrOf (R.info ev.object) = a) :
    (R.apply b ev).Exact addrOf ↔ b.Fits addrOf (R.name ev.object) a := by
  cases ev with
  | updated o =>
      rw [Notice.object_updated] at ha hi ⊢
      rw [apply_updated ha]
      exact AddressBook.exact_record_iff h hi
  | deleted o =>
      rw [Notice.object_deleted] at ha ⊢
      rw [apply_deleted ha]
      exact AddressBook.exact_forget_iff h

end Apply

/-- The book a history leaves. -/
def book (evs : List (Notice O)) : AddressBook N A I := evs.foldl R.apply .empty

theorem book_concat (evs : List (Notice O)) (ev : Notice O) :
    R.book (evs ++ [ev]) = R.apply (R.book evs) ev := List.foldl_concat ..

/-- **The last notice of a name decides what is known of it.** -/
theorem info_book (evs : List (Notice O)) (n : N) :
    (R.book evs).info.lookup n
      = match R.lastOf n evs with
        | some (.updated o) => some (R.info o)
        | _ => none := by
  induction evs using List.reverseRecOn with
  | nil => rfl
  | append_singleton evs ev ih =>
      rw [book_concat, lastOf_concat]
      cases ev with
      | updated o =>
          cases ha : R.addr o with
          | none => simpa [apply, ha] using ih
          | some a =>
              by_cases hn : n = R.name o
              · simp [apply, ha, AddressBook.lookup_info_record, hn]
              · simpa [apply, ha, AddressBook.lookup_info_record, hn, Ne.symm hn] using ih
      | deleted o =>
          cases ha : R.addr o with
          | none => simpa [apply, ha] using ih
          | some a =>
              by_cases hn : n = R.name o
              · simp [apply, ha, AddressBook.lookup_info_forget, hn]
              · simpa [apply, ha, AddressBook.lookup_info_forget, hn, Ne.symm hn] using ih

/-- **The last notice at an address decides who owns it.** -/
theorem owner_book (evs : List (Notice O)) (a : A) :
    (R.book evs).owner.lookup a
      = match R.lastAt a evs with
        | some (.updated o) => some (R.name o)
        | _ => none := by
  induction evs using List.reverseRecOn with
  | nil => rfl
  | append_singleton evs ev ih =>
      rw [book_concat, lastAt_concat]
      cases ev with
      | updated o =>
          cases ha : R.addr o with
          | none => simpa [apply, ha] using ih
          | some a' =>
              by_cases h : a = a'
              · simp [apply, ha, AddressBook.lookup_owner_record, h]
              · simpa [apply, ha, AddressBook.lookup_owner_record, h, Ne.symm h] using ih
      | deleted o =>
          cases ha : R.addr o with
          | none => simpa [apply, ha] using ih
          | some a' =>
              by_cases h : a = a'
              · simp [apply, ha, AddressBook.lookup_owner_forget, h]
              · simpa [apply, ha, AddressBook.lookup_owner_forget, h, Ne.symm h] using ih

/-! ## Two orders of one history -/

/-- No deletion takes an address from another name. -/
def NeverSteals (evs : List (Notice O)) : Prop :=
  ∀ past o, past ++ [.deleted o] <+: evs → ∀ a n, (R.book past).owner.lookup a = some n →
    n ≠ R.name o → (R.book (past ++ [.deleted o])).owner.lookup a = some n

/-- No deletion comes right after another name's update at its address. -/
def DeletesInTime (evs : List (Notice O)) : Prop :=
  ∀ past o, past ++ [.deleted o] <+: evs → ∀ a, R.addr o = some a →
    ∀ o', R.lastAt a past = some (.updated o') → R.name o' = R.name o

variable {R} {s t : List (Notice O)} {n : N} {a : A}

/-- **With fixed addresses, an address is owned by the live object that was heard of there
last.** -/
theorem owner_book_iff (hfixed : R.FixedAddr s) :
    (R.book s).owner.lookup a = some n ↔ R.LiveAt n a s ∧ R.LastBy n a s := by
  rw [owner_book]
  constructor
  · intro h
    cases hlast : R.lastAt a s with
    | none => rw [hlast] at h; cases h
    | some ev =>
        rw [hlast] at h
        cases ev with
        | deleted o => cases h
        | updated o =>
            have hn : R.name o = n := Option.some.inj h
            refine ⟨⟨o, ?_, ?_⟩, _, hlast, hn⟩
            · -- the object's next notice would be at the same address, and there is none
              obtain ⟨l₁, l₂, rfl, ha, hl₂⟩ := findRev?_eq_some_iff.mp hlast
              have ha : R.addr o = some a := of_decide_eq_true ha
              refine findRev?_eq_some_iff.mpr ⟨l₁, l₂, rfl, by simp [Notice.object, hn, ha], ?_⟩
              have hchain := hfixed n
              have hsplit : R.ofName n (l₁ ++ .updated o :: l₂)
                  = R.ofName n l₁ ++ .updated o :: R.ofName n l₂ := by
                simp [ofName, Notice.object, hn]
              rw [hsplit] at hchain
              cases hrest : R.ofName n l₂ with
              | nil =>
                  intro y hy hmatch
                  have hmem : y ∈ R.ofName n l₂ :=
                    List.mem_filter.mpr ⟨hy, by simpa using (of_decide_eq_true hmatch).1⟩
                  rw [hrest] at hmem
                  cases hmem
              | cons e rest =>
                  rw [hrest] at hchain
                  have hnext : R.addr e.object = R.addr o :=
                    (List.isChain_append_cons_cons.mp hchain).2.1 o rfl
                  have he : e ∈ R.ofName n l₂ := hrest ▸ List.mem_cons_self ..
                  exact absurd (decide_eq_true (hnext.trans ha)) (hl₂ e (List.mem_filter.mp he).1)
            · obtain ⟨_, _, -, ha, -⟩ := findRev?_eq_some_iff.mp hlast
              exact of_decide_eq_true ha
  · rintro ⟨⟨o, hlive, ha⟩, ev, hlast, hn⟩
    -- the last notice of the name is the last one at the address
    obtain ⟨l₁, l₂, rfl, hev, hl₂⟩ := findRev?_eq_some_iff.mp hlast
    obtain ⟨k₁, k₂, hk, ho, hk₂⟩ := findRev?_eq_some_iff.mp hlive
    have hmem : Notice.updated o ∈ l₁ ++ ev :: l₂ := hk ▸ by simp
    have heq : ev = .updated o := by
      rcases List.append_eq_append_iff.mp hk with ⟨c, hc₁, hc₂⟩ | ⟨c, hc₁, hc₂⟩
      · cases c with
        | nil =>
            rw [List.nil_append] at hc₂
            exact (List.cons.inj hc₂).1
        | cons x c =>
            -- the object's last notice is behind `ev`, at the address
            have hin : Notice.updated o ∈ l₂ := by
              rw [(List.cons.inj hc₂).2]
              simp
            exact absurd (decide_eq_true ha) (hl₂ _ hin)
      · cases c with
        | nil =>
            rw [List.nil_append] at hc₂
            exact (List.cons.inj hc₂).1.symm
        | cons x c =>
            -- `ev` is behind the object's last notice
            have hin : ev ∈ k₂ := by
              rw [(List.cons.inj hc₂).2]
              simp
            have hsome : (R.addr ev.object).isSome := by
              rw [of_decide_eq_true hev]
              rfl
            exact absurd (decide_eq_true ⟨hn, hsome⟩) (hk₂ _ hin)
    subst heq
    rw [hlast]
    exact congrArg some hn

/-- **Only a deletion that comes right after another name's update takes its address.** -/
theorem neverSteals_iff : R.NeverSteals s ↔ R.DeletesInTime s := by
  refine forall_congr' fun past => forall_congr' fun o => imp_congr_right fun _ => ?_
  have hlast : ∀ a n, (R.book past).owner.lookup a = some n
      ↔ ∃ o', R.lastAt a past = some (.updated o') ∧ R.name o' = n := by
    intro a n
    rw [owner_book]
    cases R.lastAt a past with
    | none => simp
    | some ev =>
        cases ev with
        | updated o' => simp
        | deleted o' => simp
  constructor
  · intro h a ha o' ho'
    by_contra hne
    have hown := h a (R.name o') ((hlast a _).mpr ⟨o', ho', rfl⟩) hne
    rw [book_concat, apply_deleted ha, AddressBook.lookup_owner_forget, if_pos rfl] at hown
    cases hown
  · intro h a n hown hne
    rw [book_concat]
    cases ha : R.addr o with
    | none => rw [apply_of_none ha]; exact hown
    | some a' =>
        have haa' : a ≠ a' := by
          rintro rfl
          obtain ⟨o', ho', rfl⟩ := (hlast a n).mp hown
          exact hne (h a ha o' ho')
        rw [apply_deleted ha, AddressBook.lookup_owner_forget, if_neg haa']
        exact hown

/-- What is known of each name does not depend on the order. -/
theorem SameOrder.info_eq (h : R.SameOrder s t) : (R.book s).info = (R.book t).info := by
  refine Finmap.ext_lookup fun n => ?_
  rw [info_book, info_book, h.lastOf_eq]

/-- **Who owns an address depends on the order exactly where it decides who was heard of last.** -/
theorem SameOrder.owner_eq_iff (h : R.SameOrder s t) (hfixed : R.FixedAddr s) :
    (R.book s).owner = (R.book t).owner
      ↔ ∀ n a, R.LiveAt n a s → (R.LastBy n a s ↔ R.LastBy n a t) := by
  have hlive : ∀ n a, R.LiveAt n a s ↔ R.LiveAt n a t := by
    intro n a
    rw [LiveAt, LiveAt, h.lastOf_eq]
  have howner : ∀ n a, (R.book t).owner.lookup a = some n ↔ R.LiveAt n a s ∧ R.LastBy n a t := by
    intro n a
    rw [owner_book_iff (h.fixedAddr hfixed), hlive]
  constructor
  · intro heq n a hl
    have hs := owner_book_iff (n := n) (a := a) hfixed
    rw [heq, howner, and_congr_right_iff] at hs
    exact (hs hl).symm
  · intro hlast
    refine Finmap.ext_lookup fun a => Option.ext fun n => ?_
    rw [owner_book_iff hfixed, howner, and_congr_right_iff]
    exact hlast n a

/-- Two orders of a history that make no difference: each live object is heard of last at its
address in both or in neither, and no deletion comes too late. -/
structure Harmless (R : Registry O N A I) (s t : List (Notice O)) : Prop where
  last : ∀ n a, R.LiveAt n a s → (R.LastBy n a s ↔ R.LastBy n a t)
  left : R.DeletesInTime s
  right : R.DeletesInTime t

/-- **Two orders leave the same book, and take no address away, exactly when they are harmless.** -/
theorem SameOrder.harmless_iff (h : R.SameOrder s t) (hfixed : R.FixedAddr s) :
    ((R.book s).info = (R.book t).info ∧ (R.book s).owner = (R.book t).owner ∧
      R.NeverSteals s ∧ R.NeverSteals t) ↔ R.Harmless s t := by
  rw [h.owner_eq_iff hfixed, neverSteals_iff, neverSteals_iff]
  exact ⟨fun ⟨_, hlast, hs, ht⟩ => ⟨hlast, hs, ht⟩,
    fun ⟨hlast, hs, ht⟩ => ⟨h.info_eq, hlast, hs, ht⟩⟩

end Registry

end Kubpf.Lib
