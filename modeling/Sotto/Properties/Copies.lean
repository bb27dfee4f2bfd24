import Sotto.Cli.Copy
import Sotto.Cli.Entries
import Sotto.Properties.FiniteMap

/-!
# Copying an environment over another

A copy sets the entries of the source that the destination does not have. When each of their names
can be set in the destination, the copy ends, and the destination has the entries of the source
written over its own; when one cannot, the copy ends with an error at it.
-/

namespace Sotto

namespace Cli

open Core Vault

namespace App

section Plans

variable {vault : Vault} {map : Table String Bytes} {apply : Bool} {seed : Nat → Seed}
  {entries src dst : List (String × Bytes)} {e : String × Bytes} {name : String} {value : Bytes}
  {plan : CopyPlan} {store : Store}

/-- An entry in the plan, by what the destination has under its name. -/
def push (map : Table String Bytes) (plan : CopyPlan) (e : String × Bytes) : CopyPlan :=
  match map.lookup e.1 with
  | some existing =>
      if existing = e.2 then { plan with unchanged := plan.unchanged ++ [e.1] }
      else { plan with update := plan.update ++ [e.1] }
  | none => { plan with create := plan.create ++ [e.1] }

theorem copyEntries_cons_of_eq (h : map.lookup e.1 = some e.2) :
    copyEntries vault map apply seed (e :: entries) plan store =
      copyEntries vault map apply seed entries (push map plan e) store := by
  obtain ⟨name, value⟩ := e
  simp only [copyEntries, push, h, if_pos]

/-- What the copy does with an entry that the destination does not have. -/
def write (vault : Vault) (apply : Bool) (seed : Nat → Seed) (n : Nat) (e : String × Bytes)
    (store : Store) : Except Error Store :=
  if apply then vault.set (seed (2 * n)) (seed (2 * n + 1)) e.1 e.2 store else .ok store

theorem copyEntries_cons_of_ok {store' : Store} (h : map.lookup e.1 ≠ some e.2)
    (hwrite : write vault apply seed entries.length e store = .ok store') :
    copyEntries vault map apply seed (e :: entries) plan store =
      copyEntries vault map apply seed entries (push map plan e) store' := by
  obtain ⟨name, value⟩ := e
  rw [write] at hwrite
  simp only [copyEntries, push, hwrite]
  cases hlookup : map.lookup name with
  | none => rfl
  | some existing =>
    have hne : existing ≠ value := by
      rintro rfl
      exact h hlookup
    simp only [if_neg hne]

theorem copyEntries_cons_of_error {err : Error} (h : map.lookup e.1 ≠ some e.2)
    (hwrite : write vault apply seed entries.length e store = .error err) :
    copyEntries vault map apply seed (e :: entries) plan store = (.error err, store) := by
  obtain ⟨name, value⟩ := e
  rw [write] at hwrite
  simp only [copyEntries, hwrite]
  cases hlookup : map.lookup name with
  | none => rfl
  | some existing =>
    have hne : existing ≠ value := by
      rintro rfl
      exact h hlookup
    simp only [if_neg hne]

/-- A dry run plans every entry, and writes nothing. -/
theorem copyEntries_dry :
    copyEntries vault map false seed entries plan store =
      (.ok (entries.foldl (push map) plan), store) := by
  induction entries generalizing plan with
  | nil => rfl
  | cons e entries ih =>
    by_cases h : map.lookup e.1 = some e.2
    · rw [copyEntries_cons_of_eq h, ih, List.foldl_cons]
    · rw [copyEntries_cons_of_ok h rfl, ih, List.foldl_cons]

/-- A copy of entries that are there writes nothing. -/
theorem copyEntries_of_equal (h : ∀ e ∈ entries, map.lookup e.1 = some e.2) :
    copyEntries vault map apply seed entries plan store =
      (.ok { plan with unchanged := plan.unchanged ++ entries.map Prod.fst }, store) := by
  induction entries generalizing plan with
  | nil => simp [copyEntries]
  | cons e entries ih =>
    have he := h e List.mem_cons_self
    rw [copyEntries_cons_of_eq he, ih fun e' he' => h e' (List.mem_cons_of_mem e he')]
    simp only [push, he, if_pos, List.map_cons, List.append_assoc, List.singleton_append]

theorem lookup_collect (h : (dst.map Prod.fst).Nodup) :
    (collect dst).lookup e.1 = some e.2 ↔ e ∈ dst := by
  constructor
  · intro hlookup
    rcases Table.lookup_foldl_insert_eq_some Prod.fst Prod.snd hlookup with hnone | ⟨e', he', heq⟩
    · cases hnone
    · rwa [← Prod.ext heq.1 heq.2]
  · exact fun he => Table.lookup_foldl_insert Prod.fst Prod.snd h he ∅

theorem lookup_collect_eq_none (h : (dst.map Prod.fst).Nodup) :
    (collect dst).lookup name = none ↔ name ∉ dst.map Prod.fst := by
  rw [Option.eq_none_iff_forall_ne_some, List.mem_map]
  constructor
  · rintro hnone ⟨e, he, rfl⟩
    exact hnone e.2 ((lookup_collect h).mpr he)
  · intro hname value hvalue
    exact hname ⟨(name, value), (lookup_collect h).mp hvalue, rfl⟩

theorem mem_keys_collect (h : (dst.map Prod.fst).Nodup) :
    name ∈ (collect dst).keys ↔ name ∈ dst.map Prod.fst := by
  rw [← AList.mem_keys, ← not_iff_not, ← lookup_collect_eq_none h, AList.lookup_eq_none]

/-- The plan of a copy of the entries `src` over the entries `dst`. -/
def planBetween (src dst : List (String × Bytes)) : CopyPlan where
  create := (src.filter fun e => e.1 ∉ dst.map Prod.fst).map Prod.fst
  update := (src.filter fun e => e.1 ∈ dst.map Prod.fst ∧ e ∉ dst).map Prod.fst
  unchanged := (src.filter fun e => e ∈ dst).map Prod.fst

theorem foldl_push (h : (dst.map Prod.fst).Nodup) :
    src.foldl (push (collect dst)) plan =
      ⟨plan.create ++ (planBetween src dst).create, plan.update ++ (planBetween src dst).update,
        plan.unchanged ++ (planBetween src dst).unchanged⟩ := by
  induction src generalizing plan with
  | nil => simp [planBetween]
  | cons e src ih =>
    rw [List.foldl_cons, ih]
    by_cases hmem : e ∈ dst
    · have hlookup := (lookup_collect h).mpr hmem
      have hname : e.1 ∈ dst.map Prod.fst := List.mem_map_of_mem hmem
      simp [planBetween, push, hlookup, hname, hmem]
    · have hlookup := mt (lookup_collect h).mp hmem
      by_cases hname : e.1 ∈ dst.map Prod.fst
      · cases hfound : (collect dst).lookup e.1 with
        | none => exact absurd hname ((lookup_collect_eq_none h).mp hfound)
        | some existing =>
          have hne : existing ≠ e.2 := by
            rintro rfl
            exact hlookup hfound
          simp [planBetween, push, hfound, hne, hname, hmem]
      · have hnone := (lookup_collect_eq_none h).mpr hname
        simp [planBetween, push, hnone, hname, hmem]

/-- Every entry of the source is in the plan, once. -/
theorem perm_planBetween (src dst : List (String × Bytes)) :
    ((planBetween src dst).create ++ (planBetween src dst).update ++
      (planBetween src dst).unchanged).Perm (src.map Prod.fst) := by
  induction src with
  | nil => rfl
  | cons e src ih =>
    by_cases hmem : e ∈ dst
    · have hname : e.1 ∈ dst.map Prod.fst := List.mem_map_of_mem hmem
      have hcons : planBetween (e :: src) dst = { planBetween src dst with
          unchanged := e.1 :: (planBetween src dst).unchanged } := by
        simp [planBetween, hname, hmem]
      rw [hcons]
      exact List.perm_middle.trans (ih.cons e.1)
    · by_cases hname : e.1 ∈ dst.map Prod.fst
      · have hcons : planBetween (e :: src) dst = { planBetween src dst with
            update := e.1 :: (planBetween src dst).update } := by
          simp [planBetween, hname, hmem]
        rw [hcons]
        exact (List.perm_middle.append_right _).trans (ih.cons e.1)
      · have hcons : planBetween (e :: src) dst = { planBetween src dst with
            create := e.1 :: (planBetween src dst).create } := by
          simp [planBetween, hname, hmem]
        rw [hcons]
        exact ih.cons e.1

end Plans

/-! ### The effect on the store -/

/-- The store has the secret and its history as before. -/
def Same (id : Ident) (store store' : Store) : Prop :=
  store'.secrets.lookup id = store.secrets.lookup id ∧ ∀ version,
    store'.secretVersions.lookup (id, version) = store.secretVersions.lookup (id, version)

/-- The entry was written as one new version of the secret, the first if there was none. -/
structure Wrote (vault : Vault) (e : String × Bytes) (id : Ident) (new : SecretRow)
    (store store' : Store) : Prop where
  stored : store'.secrets.lookup id = some new
  env : new.envId = vault.envId
  live : new.deleted = false
  entry : vault.decryptEntry id new = .ok e
  old : ∀ row, store.secrets.lookup id = some row →
    row.envId = vault.envId ∧ vault.Shows e.1 (id, row) ∧ new.version = i64Succ row.version
  first : store.secrets.lookup id = none → new.version = 1
  free : store.secretVersions.lookup (id, new.version) = none
  history : ∀ version, store'.secretVersions.lookup (id, version) =
    if version = new.version then some ⟨new.encName, new.encValue, new.encDataKey⟩
    else store.secretVersions.lookup (id, version)

/-- The entries were written, each once, and nothing else changed. -/
structure Copied (vault : Vault) (written : List (String × Bytes)) (store store' : Store) :
    Prop where
  tables : store' = { store with
    secrets := store'.secrets
    secretVersions := store'.secretVersions }
  others : ∀ envId ≠ vault.envId, ∀ deleted,
    store'.secretRows envId deleted = store.secretRows envId deleted
  changed : ∀ id, Same id store store' ∨ ∃ e ∈ written, ∃ new, Wrote vault e id new store store'
  done : ∀ e ∈ written, ∃ id new, Wrote vault e id new store store'

section Effect

variable {vault : Vault} {e : String × Bytes} {id : Ident} {row new : SecretRow}
  {name : String} {value : Bytes} {written : List (String × Bytes)} {store store₁ store' : Store}

theorem Copied.refl (vault : Vault) (store : Store) : Copied vault [] store store :=
  ⟨rfl, fun _ _ _ => rfl, fun _ => .inl ⟨rfl, fun _ => rfl⟩, fun _ he => by cases he⟩

theorem Same.of_sets (hs : vault.Sets name value id new store₁ store') {id' : Ident}
    (hid : id' ≠ id) : Same id' store₁ store' := by
  refine ⟨hs.other id' hid, fun version => ?_⟩
  rw [hs.history, AList.lookup_insert_ne fun heq => hid (Prod.mk.inj heq).1]

theorem Same.trans (h : Same id store store₁) (h' : Same id store₁ store') :
    Same id store store' :=
  ⟨h'.1.trans h.1, fun version => (h'.2 version).trans (h.2 version)⟩

theorem Wrote.trans_same (h : Wrote vault e id new store store₁) (hs : Same id store₁ store') :
    Wrote vault e id new store store' :=
  { h with
    stored := hs.1.trans h.stored
    history := fun version => (hs.2 version).trans (h.history version) }

/-- What a set writes after its secret stayed the same. -/
theorem Same.wrote (h : Same id store store₁) (hs : vault.Sets name value id new store₁ store') :
    Wrote vault (name, value) id new store store' where
  stored := hs.stored
  env := hs.env
  live := hs.live
  entry := hs.entry
  old row hrow := hs.old row (h.1.trans hrow)
  first hnone := hs.first (h.1.trans hnone)
  free := (h.2 _).symm.trans hs.free
  history version := by
    rw [hs.history, Table.lookup_insert, h.2]
    by_cases heq : version = new.version
    · subst heq
      rw [if_pos rfl, if_pos rfl]
    · rw [if_neg fun hkey => heq (Prod.mk.inj hkey).2, if_neg heq]

/-- A set of a name writes another secret than those that were written. -/
theorem Wrote.ne_of_sets (h : Wrote vault e id new store store₁) {id' : Ident} {new' : SecretRow}
    (hs : vault.Sets name value id' new' store₁ store') (hname : e.1 ≠ name) : id ≠ id' := by
  rintro rfl
  have hold := (hs.old new h.stored).2.1
  have hown := shows_of_decryptEntry h.entry
  rw [Shows] at hold hown
  exact hname (Except.ok.inj (hown.symm.trans hold))

theorem Copied.step (h : Copied vault written store store₁)
    (hs : vault.Sets name value id new store₁ store') (hname : name ∉ written.map Prod.fst) :
    Copied vault (written ++ [(name, value)]) store store' := by
  have hne : ∀ e ∈ written, e.1 ≠ name := by
    rintro e he rfl
    exact hname (List.mem_map_of_mem he)
  have hkept : ∀ {e id' new'}, e ∈ written → Wrote vault e id' new' store store₁ →
      Wrote vault e id' new' store store' := fun he hw =>
    hw.trans_same (.of_sets hs (hw.ne_of_sets hs (hne _ he)))
  have hsame : Same id store store₁ := by
    rcases h.changed id with hsame | ⟨e, he, new', hw⟩
    · exact hsame
    · exact absurd rfl (hw.ne_of_sets hs (hne e he))
  refine ⟨?_, fun envId henv deleted => ?_, fun id' => ?_, fun e he => ?_⟩
  · rw [hs.tables, h.tables]
  · rw [hs.secretRows henv, h.others envId henv]
  · by_cases hid : id' = id
    · subst hid
      exact .inr ⟨_, List.mem_append_right _ List.mem_cons_self, new, hsame.wrote hs⟩
    · rcases h.changed id' with hsame | ⟨e, he, new', hw⟩
      · exact .inl (hsame.trans (.of_sets hs hid))
      · exact .inr ⟨e, List.mem_append_left _ he, new', hkept he hw⟩
  · rcases List.mem_append.mp he with he | he
    · obtain ⟨id', new', hw⟩ := h.done e he
      exact ⟨id', new', hkept he hw⟩
    · obtain rfl := List.mem_singleton.mp he
      exact ⟨id, new, hsame.wrote hs⟩

/-- A copy deletes no secret. -/
theorem Copied.live (h : Copied vault written store store')
    (hrow : store.secrets.lookup id = some row) (hlive : row.deleted = false) :
    ∃ row', store'.secrets.lookup id = some row' ∧ row'.envId = row.envId ∧
      row'.deleted = false := by
  rcases h.changed id with hsame | ⟨e, -, new, hw⟩
  · exact ⟨row, hsame.1.trans hrow, rfl, hlive⟩
  · exact ⟨new, hw.stored, hw.env.trans (hw.old row hrow).1.symm, hw.live⟩

/-- A copy keeps every version. -/
theorem Copied.history (h : Copied vault written store store') {version : Int} {enc : SecretVersion}
    (henc : store.secretVersions.lookup (id, version) = some enc) :
    store'.secretVersions.lookup (id, version) = some enc := by
  rcases h.changed id with hsame | ⟨e, -, new, hw⟩
  · exact (hsame.2 version).trans henc
  · rw [hw.history, if_neg ?_]
    · exact henc
    · rintro rfl
      rw [hw.free] at henc
      cases henc

/-- A secret of a name that was not written is the same. -/
theorem Copied.same (h : Copied vault written store store')
    (hrow : store.secrets.lookup id = some row) (hshows : vault.Shows name (id, row))
    (hname : name ∉ written.map Prod.fst) :
    Same id store store' := by
  rcases h.changed id with hsame | ⟨e, he, new, hw⟩
  · exact hsame
  · have hown := (hw.old row hrow).2.1
    rw [Shows] at hown hshows
    obtain rfl := Except.ok.inj (hown.symm.trans hshows)
    exact absurd (List.mem_map_of_mem he) hname

end Effect

/-! ### Copying the entries -/

/-- The first draws are not used in the store. -/
def Unused (seed : Nat → Seed) (n : Nat) (store : Store) : Prop :=
  ∀ k < n, store.secrets.lookup (.uuid (seed k)) = none ∧
    store.secretVersions.lookup (.uuid (seed k), 1) = none

section Copying

variable {vault : Vault} {seed : Nat → Seed} {src dst l written : List (String × Bytes)}
  {e : String × Bytes} {id : Ident} {new : SecretRow} {name : String} {value : Bytes}
  {plan plan' : CopyPlan} {store store₁ store₂ store' : Store}

theorem Unused.mono {m n : Nat} (h : Unused seed n store) (hle : m ≤ n) : Unused seed m store :=
  fun k hk => h k (hk.trans_le hle)

theorem Unused.of_sets {n : Nat} (hseed : Function.Injective seed) (h : Unused seed (n + 1) store)
    (hs : vault.Sets name value id new store store')
    (hid : id = .uuid (seed n) ∨ store.secrets.lookup id ≠ none) : Unused seed n store' := by
  intro k hk
  have hne : Ident.uuid (seed k) ≠ id := by
    rintro rfl
    rcases hid with heq | hstored
    · exact hk.ne (hseed (Ident.uuid.inj heq))
    · exact hstored (h k (hk.trans n.lt_succ_self)).1
  obtain ⟨hsecret, hhistory⟩ := h k (hk.trans n.lt_succ_self)
  refine ⟨(hs.other _ hne).trans hsecret, ?_⟩
  rw [hs.history, AList.lookup_insert_ne fun heq => hne (Prod.mk.inj heq).1]
  exact hhistory

/-- One set of a copy. -/
theorem write_spec (hseed : Function.Injective seed) {n : Nat}
    (henv : store.environments.lookup vault.envId ≠ none)
    (hunused : Unused seed (2 * n + 1) store) :
    ((∃ store', write vault true seed n e store = .ok store') ↔ vault.Settable e.1 store) ∧
    ∀ store', write vault true seed n e store = .ok store' →
      Unused seed (2 * n) store' ∧ store'.environments.lookup vault.envId ≠ none ∧
        ∃ id new, vault.Sets e.1 e.2 id new store store' := by
  obtain ⟨hsecret, hhistory⟩ := hunused (2 * n) (Nat.lt_succ_self _)
  rw [write, if_pos rfl]
  refine ⟨set_isOk_iff henv hsecret hhistory, fun store' h => ?_⟩
  obtain ⟨id, new, hs, hid⟩ := sets_of_set hhistory h
  refine ⟨hunused.of_sets hseed hs hid, ?_, id, new, hs⟩
  rw [hs.tables]
  exact henv

/-- Where every missing name can be set, the copy writes the missing entries. -/
theorem copyEntries_of_settable (hseed : Function.Injective seed) (hdst : (dst.map Prod.fst).Nodup)
    (hsrc : (src.map Prod.fst).Nodup) (hwritten : ∀ e ∈ src, e.1 ∉ written.map Prod.fst)
    (henv : store₁.environments.lookup vault.envId ≠ none)
    (hunused : Unused seed (2 * src.length) store₁) (hcopied : Copied vault written store store₁)
    (hlists : vault.Lists store₁ l)
    (hsettable : ∀ e ∈ missing src dst, vault.Settable e.1 store₁) :
    ∃ store', copyEntries vault (collect dst) true seed src plan store₁ =
        (.ok (src.foldl (push (collect dst)) plan), store') ∧
      Copied vault (written ++ missing src dst) store store' ∧
      vault.Lists store' (overriding (missing src dst) l) := by
  induction src generalizing store₁ written l plan with
  | nil =>
    have hnil : overriding [] l = l :=
      overriding_of_subset List.nodup_nil hlists.ascends (List.nil_subset l)
    refine ⟨store₁, rfl, ?_, ?_⟩
    · rwa [missing, List.filter_nil, List.append_nil]
    · rwa [missing, List.filter_nil, hnil]
  | cons e src ih =>
    rw [List.map_cons, List.nodup_cons] at hsrc
    have hlength : 2 * (e :: src).length = 2 * src.length + 1 + 1 := rfl
    rw [hlength] at hunused
    have hrest := fun e' he' => hwritten e' (List.mem_cons_of_mem e he')
    by_cases hmem : e ∈ dst
    · rw [missing_cons_of_mem hmem] at hsettable ⊢
      rw [copyEntries_cons_of_eq ((lookup_collect hdst).mpr hmem)]
      exact ih hsrc.2 hrest henv (hunused.mono (by omega)) hcopied hlists hsettable
    · rw [missing_cons_of_not_mem hmem] at hsettable ⊢
      obtain ⟨hiff, hspec⟩ := write_spec (e := e) hseed henv (hunused.mono (Nat.le_succ _))
      obtain ⟨store₂, hset⟩ := hiff.mpr (hsettable e List.mem_cons_self)
      obtain ⟨hunused₂, henv₂, id, new, hs⟩ := hspec store₂ hset
      have hother : ∀ e' ∈ src, e.1 ≠ e'.1 := fun e' he' heq =>
        hsrc.1 (heq ▸ List.mem_map_of_mem he')
      have hnext : ∀ e' ∈ src, e'.1 ∉ (written ++ [e]).map Prod.fst := by
        intro e' he'
        rw [List.map_append, List.mem_append, not_or]
        refine ⟨hrest e' he', ?_⟩
        simpa using (hother e' he').symm
      have hnames : ((e :: missing src dst).map Prod.fst).Nodup := by
        rw [List.map_cons, List.nodup_cons]
        refine ⟨fun hname => hsrc.1 ?_, nodup_missing hsrc.2⟩
        exact (List.filter_sublist.map Prod.fst).subset hname
      have hsettable₂ : ∀ e' ∈ missing src dst, vault.Settable e'.1 store₂ := fun e' he' =>
        (hs.settable_iff (hother e' (mem_missing.mp he').1)).mpr
          (hsettable e' (List.mem_cons_of_mem e he'))
      obtain ⟨store', hcopy, hcopied', hlists'⟩ := @ih _ (written ++ [e])
        (push (collect dst) plan e) _ hsrc.2 hnext henv₂ hunused₂
        (hcopied.step hs (hwritten e List.mem_cons_self)) (hs.lists hlists) hsettable₂
      rw [copyEntries_cons_of_ok (mt (lookup_collect hdst).mp hmem) hset]
      refine ⟨store', hcopy, ?_, ?_⟩
      · rwa [List.append_assoc, List.singleton_append] at hcopied'
      · rwa [overriding_cons hnames hlists.ascends] at hlists'

/-- A copy that ends could set every missing name. -/
theorem settable_of_copyEntries (hseed : Function.Injective seed) (hdst : (dst.map Prod.fst).Nodup)
    (hsrc : (src.map Prod.fst).Nodup)
    (henv : store.environments.lookup vault.envId ≠ none)
    (hunused : Unused seed (2 * src.length) store)
    (h : copyEntries vault (collect dst) true seed src plan store = (.ok plan', store')) :
    ∀ e ∈ missing src dst, vault.Settable e.1 store := by
  induction src generalizing store plan with
  | nil =>
    intro e he
    cases he
  | cons e src ih =>
    rw [List.map_cons, List.nodup_cons] at hsrc
    have hlength : 2 * (e :: src).length = 2 * src.length + 1 + 1 := rfl
    rw [hlength] at hunused
    by_cases hmem : e ∈ dst
    · rw [missing_cons_of_mem hmem]
      rw [copyEntries_cons_of_eq ((lookup_collect hdst).mpr hmem)] at h
      exact ih hsrc.2 henv (hunused.mono (by omega)) h
    · rw [missing_cons_of_not_mem hmem]
      obtain ⟨hiff, hspec⟩ := write_spec (e := e) hseed henv (hunused.mono (Nat.le_succ _))
      cases hset : write vault true seed src.length e store with
      | error err =>
        rw [copyEntries_cons_of_error (mt (lookup_collect hdst).mp hmem) hset] at h
        cases h
      | ok store₂ =>
        rw [copyEntries_cons_of_ok (mt (lookup_collect hdst).mp hmem) hset] at h
        obtain ⟨hunused₂, henv₂, id, new, hs⟩ := hspec store₂ hset
        have hrest := ih hsrc.2 henv₂ hunused₂ h
        intro e' he'
        rcases List.mem_cons.mp he' with rfl | he'
        · exact hiff.mp ⟨store₂, hset⟩
        · refine (hs.settable_iff fun heq => hsrc.1 ?_).mp (hrest e' he')
          exact heq ▸ List.mem_map_of_mem (mem_missing.mp he').1

end Copying

/-! ### Copying an environment -/

/-- Two environments of a project that open and list their entries, no name twice. -/
structure Ends (keypair : Keypair) (projectId : Ident) (src dst : String) (store : Store)
    (srcVault dstVault : Vault) (srcEntries dstEntries : List (String × Bytes)) : Prop where
  distinct : src ≠ dst
  opensSrc : Vault.open store keypair projectId src = .ok srcVault
  opensDst : Vault.open store keypair projectId dst = .ok dstVault
  listsSrc : srcVault.entries store = .ok srcEntries
  listsDst : dstVault.entries store = .ok dstEntries
  namesSrc : (srcEntries.map Prod.fst).Nodup
  namesDst : (dstEntries.map Prod.fst).Nodup

/-- A copy that ends: what it planned is what it did, the destination has the entries of the source
written over its own, and nothing else changed. -/
structure Merged (keypair : Keypair) (projectId : Ident) (src dst : String) (seed : Nat → Seed)
    (store : Store) (srcVault dstVault : Vault) (srcEntries dstEntries : List (String × Bytes))
    (store' : Store) : Prop where
  applied : envCopy keypair projectId src dst true seed store =
    (.ok (planBetween srcEntries dstEntries), store')
  dry : envCopy keypair projectId src dst false seed store =
    (.ok (planBetween srcEntries dstEntries), store)
  merged : dstVault.entries store' = .ok (overriding srcEntries dstEntries)
  performed : Copied dstVault (missing srcEntries dstEntries) store store'
  source : srcVault.entries store' = .ok srcEntries ∧
    ∀ deleted, store'.secretRows srcVault.envId deleted = store.secretRows srcVault.envId deleted
  live : ∀ id row, store.secrets.lookup id = some row → row.deleted = false →
    ∃ row', store'.secrets.lookup id = some row' ∧ row'.envId = row.envId ∧ row'.deleted = false
  history : ∀ id version enc, store.secretVersions.lookup (id, version) = some enc →
    store'.secretVersions.lookup (id, version) = some enc
  unchanged : ∀ name ∈ (planBetween srcEntries dstEntries).unchanged, ∀ id row,
    store.secrets.lookup id = some row → dstVault.Shows name (id, row) → Same id store store'
  again : ∀ apply seed', envCopy keypair projectId src dst apply seed' store' =
    (.ok ⟨[], [], srcEntries.map Prod.fst⟩, store')
  diff : ∃ diffs, envDiff keypair projectId src dst store' = .ok (some diffs) ∧
    ∀ d ∈ diffs, d.status = .equal ∨ d.status = .onlyRight

section Copy

variable {keypair : Keypair} {projectId : Ident} {src dst : String} {apply : Bool}
  {seed : Nat → Seed} {store store' : Store} {srcVault dstVault : Vault}
  {srcEntries dstEntries : List (String × Bytes)}

theorem mapM_spec {α β : Type} {f : α → Option β} {P : β → Prop} {l : List α}
    (h : ∀ a ∈ l, ∃ b, f a = some b ∧ P b) : ∃ k, l.mapM f = some k ∧ ∀ b ∈ k, P b := by
  induction l with
  | nil => exact ⟨[], rfl, fun b hb => by cases hb⟩
  | cons a l ih =>
    obtain ⟨b, hb, hp⟩ := h a List.mem_cons_self
    obtain ⟨k, hk, hall⟩ := ih fun a' ha' => h a' (List.mem_cons_of_mem a ha')
    refine ⟨b :: k, ?_, ?_⟩
    · rw [List.mapM_cons, hb, hk]
      rfl
    · rintro b' hb'
      rcases List.mem_cons.mp hb' with rfl | hb'
      · exact hp
      · exact hall b' hb'

theorem open_of_tables {name : String} (h : store' = { store with
      secrets := store'.secrets
      secretVersions := store'.secretVersions }) :
    Vault.open store' keypair projectId name = Vault.open store keypair projectId name := by
  rw [h]
  rfl

theorem unused_draws (draws : Draws store) (n : Nat) : Unused draws.seed n store :=
  fun k _ => ⟨draws.noSecret k, draws.noHistory k 1⟩

namespace Ends

theorem envId_ne
    (h : Ends keypair projectId src dst store srcVault dstVault srcEntries dstEntries) :
    srcVault.envId ≠ dstVault.envId := by
  intro heq
  obtain ⟨env, henv, -⟩ := open_eq_ok h.opensSrc
  obtain ⟨env', henv', -⟩ := open_eq_ok h.opensDst
  obtain ⟨hlookup, -, rfl⟩ := Store.lookup_of_getEnvironment henv
  obtain ⟨hlookup', -, hname⟩ := Store.lookup_of_getEnvironment henv'
  rw [← heq, hlookup] at hlookup'
  obtain rfl := Option.some.inj hlookup'
  exact h.distinct hname

theorem environment
    (h : Ends keypair projectId src dst store srcVault dstVault srcEntries dstEntries) :
    store.environments.lookup dstVault.envId ≠ none := by
  obtain ⟨env, henv, -⟩ := open_eq_ok h.opensDst
  rw [(Store.lookup_of_getEnvironment henv).1]
  exact Option.some_ne_none env

theorem envCopy_eq
    (h : Ends keypair projectId src dst store srcVault dstVault srcEntries dstEntries) :
    envCopy keypair projectId src dst apply seed store =
      copyEntries dstVault (collect dstEntries) apply seed srcEntries ⟨[], [], []⟩ store := by
  have hends : copyEnds keypair projectId src dst store =
      .ok (srcEntries, dstVault, collect dstEntries) := by
    refine bind_eq_ok.2 ⟨(), Checked.require_eq_ok.2 h.distinct, ?_⟩
    refine bind_eq_ok.2 ⟨srcEntries, bind_eq_ok.2 ⟨srcVault, h.opensSrc, h.listsSrc⟩, ?_⟩
    exact bind_eq_ok.2 ⟨dstVault, h.opensDst, bind_eq_ok.2 ⟨dstEntries, h.listsDst, rfl⟩⟩
  rw [envCopy, hends]

/-- A dry run reports the plan. -/
theorem dry (h : Ends keypair projectId src dst store srcVault dstVault srcEntries dstEntries) :
    envCopy keypair projectId src dst false seed store =
      (.ok (planBetween srcEntries dstEntries), store) := by
  rw [h.envCopy_eq, copyEntries_dry, foldl_push h.namesDst]
  rfl

/-- The environments after their entries were copied. -/
theorem copied (h : Ends keypair projectId src dst store srcVault dstVault srcEntries dstEntries)
    {written : List (String × Bytes)} (hcopied : Copied dstVault written store store')
    (hlists : dstVault.Lists store' (overriding srcEntries dstEntries)) :
    Ends keypair projectId src dst store' srcVault dstVault srcEntries
      (overriding srcEntries dstEntries) where
  distinct := h.distinct
  opensSrc := (open_of_tables hcopied.tables).trans h.opensSrc
  opensDst := (open_of_tables hcopied.tables).trans h.opensDst
  listsSrc := by
    rw [← h.listsSrc]
    unfold Vault.entries Store.listSecrets
    rw [hcopied.others srcVault.envId h.envId_ne false]
  listsDst := hlists.entries
  namesSrc := h.namesSrc
  namesDst := hlists.ascends.nodup

/-- Where the destination has every entry of the source, a copy does nothing. -/
theorem again (h : Ends keypair projectId src dst store srcVault dstVault srcEntries dstEntries)
    (hsubset : srcEntries ⊆ dstEntries) :
    envCopy keypair projectId src dst apply seed store =
      (.ok ⟨[], [], srcEntries.map Prod.fst⟩, store) := by
  rw [h.envCopy_eq, copyEntries_of_equal fun e he => (lookup_collect h.namesDst).mpr (hsubset he)]
  rfl

/-- Where the destination has every entry of the source, the comparison shows no other one. -/
theorem diff (h : Ends keypair projectId src dst store srcVault dstVault srcEntries dstEntries)
    (hsubset : srcEntries ⊆ dstEntries) :
    ∃ diffs, envDiff keypair projectId src dst store = .ok (some diffs) ∧
      ∀ d ∈ diffs, d.status = .equal ∨ d.status = .onlyRight := by
  have hentry : ∀ name ∈ (((collect srcEntries).keys ++ (collect dstEntries).keys).mergeSort
      fun a b => decide (a ≤ b)).destutter (· ≠ ·),
      ∃ d, diffEntry (collect srcEntries) (collect dstEntries) name = some d ∧
        (d.status = .equal ∨ d.status = .onlyRight) := by
    intro name hname
    have hkeys := List.mem_mergeSort.mp ((List.destutter_sublist _ _).subset hname)
    rw [List.mem_append, mem_keys_collect h.namesSrc, mem_keys_collect h.namesDst] at hkeys
    cases hleft : (collect srcEntries).lookup name with
    | some value =>
      have hmem : (name, value) ∈ srcEntries := (lookup_collect h.namesSrc).mp hleft
      have hright : (collect dstEntries).lookup name = some value :=
        (lookup_collect h.namesDst).mpr (hsubset hmem)
      refine ⟨⟨name, .equal, some value, some value⟩, ?_, .inl rfl⟩
      rw [diffEntry, hleft, hright, diffStatus, if_pos rfl]
      rfl
    | none =>
      have hnot := (lookup_collect_eq_none h.namesSrc).mp hleft
      have hname' := hkeys.resolve_left hnot
      obtain ⟨e, hmem, rfl⟩ := List.mem_map.mp hname'
      have hright := (lookup_collect h.namesDst).mpr hmem
      refine ⟨⟨e.1, .onlyRight, none, some e.2⟩, ?_, .inr rfl⟩
      rw [diffEntry, hleft, hright]
      rfl
  obtain ⟨diffs, hdiffs, hall⟩ := mapM_spec hentry
  refine ⟨diffs, ?_, hall⟩
  refine bind_eq_ok.2 ⟨srcEntries, bind_eq_ok.2 ⟨srcVault, h.opensSrc, h.listsSrc⟩, ?_⟩
  refine bind_eq_ok.2 ⟨dstEntries, bind_eq_ok.2 ⟨dstVault, h.opensDst, h.listsDst⟩, ?_⟩
  exact congrArg Except.ok hdiffs

theorem merged_of_settable
    (h : Ends keypair projectId src dst store srcVault dstVault srcEntries dstEntries)
    (draws : Draws store) (hsettable : ∀ e ∈ missing srcEntries dstEntries,
      dstVault.Settable e.1 store) :
    ∃ store', Merged keypair projectId src dst draws.seed store srcVault dstVault srcEntries
      dstEntries store' := by
  have hlists := lists_of_entries h.listsDst h.namesDst
  obtain ⟨store', happlied, hcopied, hlists'⟩ := copyEntries_of_settable draws.injective h.namesDst
    h.namesSrc (fun e _ => List.not_mem_nil) h.environment (unused_draws draws _)
    (.refl dstVault store) hlists hsettable
  rw [overriding_missing h.namesSrc hlists.ascends] at hlists'
  rw [List.nil_append] at hcopied
  have hends := h.copied hcopied hlists'
  have hsubset : srcEntries ⊆ overriding srcEntries dstEntries := fun e he =>
    mem_overriding.mpr (.inl he)
  refine ⟨store', ?_, h.dry, hlists'.entries, hcopied, ⟨hends.listsSrc, fun deleted => ?_⟩,
    fun id row hrow hlive => hcopied.live hrow hlive, fun id version enc henc =>
      hcopied.history henc, fun name hname id row hrow hshows => ?_, fun apply seed' =>
      hends.again hsubset, hends.diff hsubset⟩
  · rw [h.envCopy_eq, happlied, foldl_push h.namesDst]
    rfl
  · exact hcopied.others _ h.envId_ne deleted
  · refine hcopied.same hrow hshows fun hmissing => ?_
    obtain ⟨e, he, rfl⟩ := List.mem_map.mp hname
    obtain ⟨e', he', heq⟩ := List.mem_map.mp hmissing
    obtain ⟨hsrc, hdst⟩ := List.mem_filter.mp he
    obtain rfl := List.inj_on_of_nodup_map h.namesSrc (mem_missing.mp he').1 hsrc heq
    exact (mem_missing.mp he').2 (of_decide_eq_true hdst)

theorem settable_of_merged
    (h : Ends keypair projectId src dst store srcVault dstVault srcEntries dstEntries)
    (draws : Draws store) (hmerged : Merged keypair projectId src dst draws.seed store srcVault
      dstVault srcEntries dstEntries store') :
    ∀ e ∈ missing srcEntries dstEntries, dstVault.Settable e.1 store := by
  have happlied := hmerged.applied
  rw [h.envCopy_eq] at happlied
  exact settable_of_copyEntries draws.injective h.namesDst h.namesSrc h.environment
    (unused_draws draws _) happlied

end Ends

/-- A copy merges the environments exactly when the name of each entry that the destination lacks
can be set in it. -/
theorem envCopy_merges_iff (draws : Draws store)
    (h : Ends keypair projectId src dst store srcVault dstVault srcEntries dstEntries) :
    (∃ store', Merged keypair projectId src dst draws.seed store srcVault dstVault srcEntries
        dstEntries store') ↔
      ∀ e ∈ srcEntries, e ∉ dstEntries → dstVault.Settable e.1 store := by
  constructor
  · rintro ⟨store', hmerged⟩ e he hnot
    exact h.settable_of_merged draws hmerged e (mem_missing.mpr ⟨he, hnot⟩)
  · intro hsettable
    exact h.merged_of_settable draws fun e he =>
      hsettable e (mem_missing.mp he).1 (mem_missing.mp he).2

end Copy

/-! ### Two environments of the team -/

/-- A second environment, opened on the device that has both. -/
def prod : Vault := ⟨.text "prod", .random ⟨0, 7⟩ 0⟩

/-- What the first environment has under the name. -/
def newToken : Bytes := .random ⟨0, 8⟩ 0

def oldToken : SecretVersion := prod.encrypt ⟨2, 0⟩ (.text "old") 1 "TOKEN" Team.value

/-- A device with both environments, and a secret of one name in each. -/
def promotion : Store :=
  ((({ Team.store Team.alice with
    environments := AList.insert prod.envId ⟨Team.projectId, "prod",
      .sealedBox (Team.keypair Team.alice).public (⟨0, 9⟩, 0) prod.vaultKey⟩
        (Team.store Team.alice).environments } : Store).withSecret (.text "new") opened.envId
    (opened.encrypt ⟨2, 1⟩ (.text "new") 1 "TOKEN" newToken))).withSecret (.text "old") prod.envId
    oldToken

/-- The device set the secret of the second environment once more, and then took the server's row
of its first version by force. -/
def forced : Store :=
  (promotion.withVersion (.text "old") 2 (prod.encrypt ⟨2, 2⟩ (.text "old") 2 "TOKEN" newToken)
    ).replaceSecret prod.envId
      ⟨.text "old", oldToken.encName, oldToken.encValue, oldToken.encDataKey, 1, false⟩

def oldRow : SecretRow :=
  ⟨prod.envId, oldToken.encName, oldToken.encValue, oldToken.encDataKey, 1, false⟩

theorem decryptEntry_oldRow : prod.decryptEntry (.text "old") oldRow = .ok ("TOKEN", Team.value) :=
  decryptEntry_encrypt rfl rfl

theorem existing_oldRow {store : Store}
    (h : store.listSecrets prod.envId = [(.text "old", oldRow)]) :
    prod.existing "TOKEN" store = .ok (some (.text "old", oldRow)) := by
  have hshows : prod.Shows "TOKEN" (.text "old", oldRow) :=
    shows_of_decryptEntry decryptEntry_oldRow
  exact existing_singleton h hshows

/-- The two stores list the same entries. -/
theorem ends_of_rows {store : Store}
    (hdev : Vault.open store (Team.keypair Team.alice) Team.projectId "dev" = .ok opened)
    (hprod : Vault.open store (Team.keypair Team.alice) Team.projectId "prod" = .ok prod)
    (hsrc : store.listSecrets opened.envId = promotion.listSecrets opened.envId)
    (hdst : store.listSecrets prod.envId = [(.text "old", oldRow)]) :
    Ends (Team.keypair Team.alice) Team.projectId "dev" "prod" store opened prod
      [("TOKEN", newToken)] [("TOKEN", Team.value)] where
  distinct := by decide
  opensSrc := hdev
  opensDst := hprod
  listsSrc := entries_singleton hsrc (decryptEntry_encrypt rfl rfl)
  listsDst := entries_singleton hdst decryptEntry_oldRow
  namesSrc := List.nodup_singleton _
  namesDst := List.nodup_singleton _

theorem ends_promotion : Ends (Team.keypair Team.alice) Team.projectId "dev" "prod" promotion opened
    prod [("TOKEN", newToken)] [("TOKEN", Team.value)] :=
  ends_of_rows rfl rfl rfl rfl

theorem ends_forced : Ends (Team.keypair Team.alice) Team.projectId "dev" "prod" forced opened prod
    [("TOKEN", newToken)] [("TOKEN", Team.value)] :=
  ends_of_rows rfl rfl rfl rfl

def drawsPromotion : Draws promotion where
  seed := draws.seed
  injective := draws.injective
  noSecret _ := rfl
  noHistory _ _ := rfl

def drawsForced : Draws forced where
  seed := draws.seed
  injective := draws.injective
  noSecret _ := rfl
  noHistory _ _ := rfl

/-- The secret of the name is overwritten. -/
theorem envCopy_merges_promotion : ∃ store', Merged (Team.keypair Team.alice) Team.projectId "dev"
    "prod" drawsPromotion.seed promotion opened prod [("TOKEN", newToken)] [("TOKEN", Team.value)]
    store' := by
  refine (envCopy_merges_iff drawsPromotion ends_promotion).mpr fun e he _ => ?_
  obtain rfl := List.mem_singleton.mp he
  refine ⟨_, existing_oldRow rfl, ?_⟩
  rintro row ⟨⟩
  rfl

/-- The version after the first is in the history, and the copy fails. -/
theorem not_merges_forced : ¬ ∃ store', Merged (Team.keypair Team.alice) Team.projectId "dev" "prod"
    drawsForced.seed forced opened prod [("TOKEN", newToken)] [("TOKEN", Team.value)] store' := by
  rintro ⟨store', hmerged⟩
  have hmissing : (("TOKEN", newToken) : String × Bytes) ∈
      missing [("TOKEN", newToken)] [("TOKEN", Team.value)] := by
    decide
  obtain ⟨found, hfound, hfree⟩ := ends_forced.settable_of_merged drawsForced hmerged _ hmissing
  have hold : prod.existing "TOKEN" forced = .ok (some (.text "old", oldRow)) :=
    existing_oldRow rfl
  rw [hold] at hfound
  obtain rfl := Except.ok.inj hfound
  cases hfree _ rfl

end App

end Cli

end Sotto
