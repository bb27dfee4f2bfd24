import Sotto.Properties.Versions
import Sotto.Server.Service

/-!
# Writes are compare-and-swap

Each request of a client that writes is one compare-and-swap of the environment's revision, in any
interleaving: it commits exactly when it is permitted, its base revision is the environment's at
its transaction and its operations are valid, and otherwise it leaves the database as it was. So
the committed requests form a chain in which each is computed against the state it replaces.
-/

namespace Sotto

open Core Api

namespace Server

/-- A committed request replaced the state that it was computed against. -/
structure Entry.Committed (e : Entry) : Prop where
  base : e.before.revisionOf e.call.envId = some e.call.baseRevision
  valid : e.call.Valid e.before
  after : e.after = e.call.apply e.before
  next : e.after.revisionOf e.call.envId = some (e.call.baseRevision + 1)
  others : ∀ envId, envId ≠ e.call.envId → e.after.revisionOf envId = e.before.revisionOf envId

/-- The committed requests lead from one database to another, each from where the one before it
left. -/
def Chain (db₀ : Db) : List Entry → Db → Prop
  | [], db => db = db₀
  | e :: log, db => db = e.after ∧ e.Committed ∧ Chain db₀ log e.before

/-- What a request that returned has done. -/
structure Settled (db₀ : Db) (call : WriteCall) (result : Except Error Int) (s : Ledger)
    (l : Client) : Prop where
  reads : ∀ p ∈ l.reads, p.2 = p.1
  turn : l.turn ≠ none ↔ call.Permitted db₀
  refused : l.turn = none → ∃ e, result = .error e
  decided : ∀ before after, l.turn = some (before, after) → ((∃ v, result = .ok v) ↔
    before.revisionOf call.envId = some call.baseRevision ∧ call.Valid before)
  committed : ∀ before after v, l.turn = some (before, after) → result = .ok v →
    v = call.baseRevision + 1 ∧ ⟨call, before, after⟩ ∈ s.log
  failed : ∀ before after e, l.turn = some (before, after) → result = .error e → after = before

/-! ### Transactions -/

section Transactions

variable {db : Db} {envId : Ident}

theorem revisionOf_withRevision_of_ne {envId' : Ident} (h : envId' ≠ envId) (revision : Int) :
    (db.withRevision envId revision).revisionOf envId' = db.revisionOf envId' := by
  simp only [Db.revisionOf, Db.withRevision, Table.lookup_modify_of_ne h]

theorem revisionOf_foldl_effect (changes : List SecretChange) (envId' : Ident) :
    (changes.foldl (effect envId) db).revisionOf envId' = db.revisionOf envId' := by
  induction changes generalizing db with
  | nil => rfl
  | cons c changes ih =>
      rw [List.foldl_cons, ih]
      unfold effect
      cases c.op <;> rfl

theorem decodeRotation_baseRevision {userId : Ident} {req : RotateRequest} {rotation : Rotation}
    (h : decodeRotation userId req = .ok rotation) :
    rotation.baseRevision = req.baseRevision := by
  simp only [decodeRotation, bind_eq_ok] at h
  obtain ⟨_, -, _, -, _, -, _, -, _, -, _, -, h⟩ := h
  cases h
  rfl

/-- A request at the environment's revision leaves it at the next. -/
theorem committed_of_valid {call : WriteCall} {after : Db}
    (hbase : db.revisionOf call.envId = some call.baseRevision) (hvalid : call.Valid db)
    (hafter : after = call.apply db) : (Entry.mk call db after).Committed := by
  have hsome : db.revisionOf call.envId ≠ none := by
    rw [hbase]
    simp
  cases call with
  | writeSecrets userId envId req =>
      refine ⟨hbase, hvalid, hafter, ?_, ?_⟩
      · rw [hafter]
        refine revisionOf_withRevision ?_ _
        rw [revisionOf_foldl_effect]
        exact hsome
      · intro envId' hne
        rw [hafter]
        refine (revisionOf_withRevision_of_ne hne _).trans ?_
        exact revisionOf_foldl_effect _ _
  | rotate userId envId req =>
      have hadmits := hvalid
      obtain ⟨orgId, rotation, -, hdecode, -⟩ := hadmits
      have happly : WriteCall.apply db (.rotate userId envId req) =
          (db.rekeyed envId rotation).withRevision envId (req.baseRevision + 1) := by
        simp only [WriteCall.apply, hdecode]
      refine ⟨hbase, hvalid, hafter, ?_, ?_⟩
      · rw [hafter, happly]
        exact @revisionOf_withRevision envId (db.rekeyed envId rotation) hsome _
      · intro envId' hne
        rw [hafter, happly]
        exact revisionOf_withRevision_of_ne hne _

end Transactions

/-! ### Runs -/

/-- What the clients keep up. -/
def ledgerOutline (db₀ : Db) : Outline service where
  rely _ s s' := SameAccess s.db s'.db ∧ s.log <:+ s'.log
  guar _ _ s _ s' := SameAccess s.db s'.db ∧ s.log <:+ s'.log
  inv s := SameAccess db₀ s.db ∧ Chain db₀ s.log s.db
  idle _ s l := ∀ call result, l.last = some (call, result) → Settled db₀ call result s l
  post _ call result s l := Settled db₀ call result s l
  rely_refl _ s := ⟨SameAccess.refl s.db, List.suffix_refl s.log⟩
  rely_trans := fun _ _ _ _ h h' => ⟨h.1.trans h'.1, h.2.trans h'.2⟩

/-- The setting of a client. -/
abbrev clientSetting (db₀ : Db) (i : Nat) : @Setting Stmt Stmt.Answer Ledger Client :=
  (ledgerOutline db₀).setting i

section Runs

variable {db₀ : Db} {i : Nat} {s s' : Ledger} {l : Client} {α β : Type}

theorem Settled.later {call : WriteCall} {result : Except Error Int}
    (h : Settled db₀ call result s l) (hlog : s.log <:+ s'.log) :
    Settled db₀ call result s' l := by
  refine ⟨h.reads, h.turn, h.refused, h.decided, ?_, h.failed⟩
  intro before after v hturn hresult
  obtain ⟨hv, hmem⟩ := h.committed before after v hturn hresult
  exact ⟨hv, hlog.subset hmem⟩

/-- What a handler ensures on the server. -/
abbrev Ensured (db₀ : Db) (i : Nat) (p : Served α) (Q : α → Ledger → Client → Prop)
    (E : Error → Ledger → Client → Prop) (s : Ledger) (l : Client) : Prop :=
  (clientSetting db₀ i).wpE Prog.perform p Q E s l

variable {Q : α → Ledger → Client → Prop} {E : Error → Ledger → Client → Prop}

theorem ensured_check {result : Except Error α} (hQ : ∀ a s', result = .ok a → Q a s' l)
    (hE : ∀ e s', result = .error e → E e s' l) : Ensured db₀ i (check result) Q E s l := by
  cases result with
  | ok a => exact Setting.wpE_pure fun s' _ _ => hQ a s' rfl
  | error e => exact Setting.wpE_throw fun s' _ _ => hE e s' rfl

theorem ensured_require {p : Prop} [Decidable p] {e : Error} {Q : Unit → Ledger → Client → Prop}
    (hQ : p → ∀ s', Q () s' l) (hE : ¬ p → ∀ s', E e s' l) :
    Ensured db₀ i (require p e) Q E s l := by
  unfold require
  split
  · next h => exact Setting.wpE_pure fun s' _ _ => hQ h s'
  · next h => exact Setting.wpE_throw fun s' _ _ => hE h s'

/-- A read leaves the database as it is. -/
theorem ensured_read {stmt : Stmt} {Q : stmt.Reply → Ledger → Client → Prop}
    (hread : stmt.isWrite = false) (hquery : ∀ db, (stmt.exec db).2 = db)
    (hQ : ∀ (s' : Ledger) a, SameAccess db₀ s'.db → (stmt.exec s'.db).1 = .ok a → ∀ s'',
      Q a s'' { l with reads := (s'.db, s'.db) :: l.reads })
    (hE : ∀ (s' : Ledger) e, SameAccess db₀ s'.db → (stmt.exec s'.db).1 = .error e → ∀ s'',
      E e s'' { l with reads := (s'.db, s'.db) :: l.reads }) :
    Ensured db₀ i (Database.perform stmt) Q E s l := by
  have hperform : (Database.perform stmt : Served stmt.Reply) = ExceptT.mk (Prog.perform stmt) := rfl
  unfold Ensured Setting.wpE
  rw [hperform, ExceptT.run_mk, Prog.expand_perform_eq]
  refine Setting.wp_perform ?_
  intro s' _ hi r s'' l' he
  have hserve : serve stmt s' l = ((stmt.exec s'.db).1, s',
      { l with reads := (s'.db, s'.db) :: l.reads }) := by
    simp [serve, hread, hquery]
  have he : serve stmt s' l = (r, s'', l') := he
  rw [hserve, Prod.mk.injEq, Prod.mk.injEq] at he
  obtain ⟨rfl, rfl, rfl⟩ := he
  refine ⟨⟨SameAccess.refl _, List.suffix_refl _⟩, hi, ?_⟩
  intro s₃ _ _
  cases hr : (stmt.exec s'.db).1 with
  | ok a => exact hQ s' a hi.1 hr s₃
  | error e => exact hE s' e hi.1 hr s₃

/-- The transaction of a request that is permitted: it commits exactly at its base revision and
with valid operations, and changes nothing otherwise. -/
theorem ensured_transaction {call : WriteCall} {stmt : Stmt} (tx : Tx Int) {reads : List (Db × Db)}
    {last : Option (WriteCall × Except Error Int)} {Q : stmt.Reply → Ledger → Client → Prop}
    (hwrite : stmt.isWrite = true) (hreads : ∀ p ∈ reads, p.2 = p.1)
    (hpermitted : call.Permitted db₀)
    (htx : ∀ db db' v, SameAccess db₀ db → (tx.run db = .ok (v, db') ↔
      (db.revisionOf call.envId = some call.baseRevision ∧ call.Valid db) ∧
        v = call.baseRevision + 1 ∧ db' = call.apply db))
    (hok : ∀ db v db', tx.run db = .ok (v, db') → ∃ a, stmt.exec db = (.ok a, db') ∧
      ∀ s' l', Settled db₀ call (.ok v) s' l' → Q a s' l')
    (herror : ∀ db e, tx.run db = .error e → stmt.exec db = (.error e, db)) :
    Ensured db₀ i (Database.perform stmt) Q (fun e => Settled db₀ call (.error e)) s
      ⟨some call, reads, none, last⟩ := by
  have hperform : (Database.perform stmt : Served stmt.Reply) = ExceptT.mk (Prog.perform stmt) := rfl
  unfold Ensured Setting.wpE
  rw [hperform, ExceptT.run_mk, Prog.expand_perform_eq]
  refine Setting.wp_perform ?_
  intro s' _ hi r s'' l' he
  have he : serve stmt s' ⟨some call, reads, none, last⟩ = (r, s'', l') := he
  cases hrun : tx.run s'.db with
  | ok result =>
      obtain ⟨v, db'⟩ := result
      obtain ⟨⟨hbase, hvalid⟩, hv, hdb⟩ := (htx _ _ _ hi.1).1 hrun
      obtain ⟨a, hexec, hQ⟩ := hok _ _ _ hrun
      have hserve : serve stmt s' ⟨some call, reads, none, last⟩ =
          (.ok a, ⟨db', ⟨call, s'.db, db'⟩ :: s'.log⟩,
            ⟨some call, reads, some (s'.db, db'), last⟩) := by
        simp [serve, hwrite, hexec, Except.toBool]
      rw [hserve, Prod.mk.injEq, Prod.mk.injEq] at he
      obtain ⟨rfl, rfl, rfl⟩ := he
      have hsame : SameAccess s'.db db' := by
        rw [hdb]
        exact SameAccess.apply call s'.db
      refine ⟨⟨hsame, List.suffix_cons _ _⟩, ⟨hi.1.trans hsame, rfl,
        committed_of_valid hbase hvalid hdb, hi.2⟩, ?_⟩
      intro s₃ hrely _
      have hsettled : Settled db₀ call (.ok v) ⟨db', ⟨call, s'.db, db'⟩ :: s'.log⟩
          ⟨some call, reads, some (s'.db, db'), last⟩ := by
        refine ⟨hreads, ⟨fun _ => hpermitted, fun _ => by simp⟩, by simp, ?_, ?_, by simp⟩
        · rintro before after ⟨⟩
          exact ⟨fun _ => ⟨hbase, hvalid⟩, fun _ => ⟨v, rfl⟩⟩
        · rintro before after _ ⟨⟩ ⟨⟩
          exact ⟨hv, List.mem_cons_self⟩
      exact hQ _ _ (hsettled.later hrely.2)
  | error e =>
      have hserve : serve stmt s' ⟨some call, reads, none, last⟩ =
          (.error e, s', ⟨some call, reads, some (s'.db, s'.db), last⟩) := by
        simp [serve, hwrite, herror _ _ hrun, Except.toBool]
      rw [hserve, Prod.mk.injEq, Prod.mk.injEq] at he
      obtain ⟨rfl, rfl, rfl⟩ := he
      refine ⟨⟨SameAccess.refl _, List.suffix_refl _⟩, hi, ?_⟩
      intro s₃ _ _
      refine ⟨hreads, ⟨fun _ => hpermitted, fun _ => by simp⟩, by simp, ?_, by simp, ?_⟩
      · rintro before after ⟨⟩
        refine ⟨by simp, fun h => ?_⟩
        have hcommits := (htx _ _ _ hi.1).2 ⟨h, rfl, rfl⟩
        rw [hrun] at hcommits
        cases hcommits
      · rintro before after _ ⟨⟩ -
        rfl

/-- A request that is refused before its transaction. -/
theorem settled_of_refused {call : WriteCall} {e : Error} {reads : List (Db × Db)}
    {last : Option (WriteCall × Except Error Int)} (hreads : ∀ p ∈ reads, p.2 = p.1)
    (hrefused : ¬ call.Permitted db₀) :
    Settled db₀ call (.error e) s ⟨some call, reads, none, last⟩ :=
  ⟨hreads, ⟨fun h => absurd rfl h, fun h => absurd h hrefused⟩, fun _ => ⟨e, rfl⟩, by simp,
    by simp, by simp⟩

section Handlers

variable {userId envId : Ident} {last : Option (WriteCall × Except Error Int)}

theorem reads_cons {db : Db} {reads : List (Db × Db)} (h : ∀ p ∈ reads, p.2 = p.1) :
    ∀ p ∈ (db, db) :: reads, p.2 = p.1 := by
  intro p hp
  rcases List.mem_cons.1 hp with rfl | hp
  · rfl
  · exact h p hp

/-- What a batch ensures. -/
theorem ensured_writeSecrets (req : BatchRequest) :
    Ensured db₀ i (writeSecrets userId envId req)
      (fun v => Settled db₀ (.writeSecrets userId envId req) (.ok v))
      (fun e => Settled db₀ (.writeSecrets userId envId req) (.error e)) s
      ⟨some (.writeSecrets userId envId req), [], none, last⟩ := by
  refine Setting.wpE_bind (ensured_require ?_ ?_)
  · intro hchanges s₁
    refine Setting.wpE_bind (ensured_read rfl (fun _ => rfl) ?_ ?_)
    · intro s₂ access hsame haccess s₃
      replace haccess : envAccess envId userId s₂.db = .ok access := haccess
      have haccess₀ : envAccess envId userId db₀ = .ok access :=
        (hsame.envAccess_eq _ _).symm.trans haccess
      refine Setting.wpE_bind (ensured_check ?_ ?_)
      · intro _ s₄ hwrite
        have hpermitted : (WriteCall.writeSecrets userId envId req).Permitted db₀ :=
          ⟨hchanges, access, haccess₀, hwrite⟩
        refine ensured_transaction (writeSecretsTx access.2 envId req) rfl (reads_cons (by simp))
          hpermitted ?_ ?_ ?_
        · intro db db' v hdb
          have hmay : MayWrite access.2 db := mayWrite_of_envAccess haccess₀ hwrite hdb
          rw [writeSecretsTx_eq_ok_iff]
          constructor
          · rintro ⟨⟨-, hbase, hvalid⟩, rfl, hdb'⟩
            exact ⟨⟨hbase, hvalid⟩, rfl, hdb'⟩
          · rintro ⟨⟨hbase, hvalid⟩, rfl, hdb'⟩
            exact ⟨⟨hmay, hbase, hvalid⟩, rfl, hdb'⟩
        · intro db v db' hrun
          refine ⟨v, ?_, fun _ _ h => h⟩
          simp only [Stmt.exec, commit, hrun]
        · intro db e hrun
          simp only [Stmt.exec, commit, hrun]
      · intro e s₄ hwrite
        refine settled_of_refused (reads_cons (by simp)) ?_
        rintro ⟨-, access', haccess', hwrite'⟩
        rw [haccess₀] at haccess'
        cases haccess'
        rw [hwrite] at hwrite'
        cases hwrite'
    · intro s₂ e hsame herror s₃
      replace herror : envAccess envId userId s₂.db = .error e := herror
      refine settled_of_refused (reads_cons (by simp)) ?_
      rintro ⟨-, access', haccess', -⟩
      rw [← hsame.envAccess_eq, herror] at haccess'
      cases haccess'
  · intro hchanges s₁
    exact settled_of_refused (by simp) fun h => hchanges h.1

theorem selectOrgId_eq_ok {orgId : Option Ident} {db : Db}
    (h : ((Stmt.selectOrgId envId).exec db).1 = .ok orgId) : db.orgOf envId = orgId := by
  unfold Db.orgOf
  simp only [Stmt.exec, query] at h
  split at h
  · cases h
  · next env henv =>
      rw [henv, Option.bind_some]
      split at h
      · cases h
      · next project hproject =>
          cases h
          rw [hproject, Option.bind_some]

theorem selectOrgId_eq_error {e : Error} {db : Db}
    (h : ((Stmt.selectOrgId envId).exec db).1 = .error e) : db.orgOf envId = none := by
  unfold Db.orgOf
  simp only [Stmt.exec, query] at h
  split at h
  · next henv =>
      rw [henv]
      rfl
  · next env henv =>
      rw [henv, Option.bind_some]
      split at h
      · next hproject =>
          rw [hproject]
          rfl
      · cases h

/-- What a rotation ensures. -/
theorem ensured_rotate (req : RotateRequest) :
    Ensured db₀ i (rotate userId envId req)
      (fun v => Settled db₀ (.rotate userId envId req) (.ok v))
      (fun e => Settled db₀ (.rotate userId envId req) (.error e)) s
      ⟨some (.rotate userId envId req), [], none, last⟩ := by
  refine Setting.wpE_bind (ensured_read rfl (fun _ => rfl) ?_ ?_)
  · intro s₁ access hsame haccess s₂
    replace haccess : envAccess envId userId s₁.db = .ok access := haccess
    have haccess₀ : envAccess envId userId db₀ = .ok access :=
      (hsame.envAccess_eq _ _).symm.trans haccess
    refine Setting.wpE_bind (ensured_check ?_ ?_)
    · intro _ s₃ hmanage
      refine Setting.wpE_bind (ensured_read rfl (fun _ => rfl) ?_ ?_)
      · intro s₄ orgId hsame' horg s₅
        have horg₀ : db₀.orgOf envId = orgId :=
          (hsame'.orgOf_eq envId).symm.trans (selectOrgId_eq_ok horg)
        cases orgId with
        | none =>
            refine Setting.wpE_throw fun s₆ _ _ => ?_
            refine settled_of_refused (reads_cons (reads_cons (by simp))) ?_
            rintro ⟨-, ⟨orgId, horg'⟩, -⟩
            rw [horg₀] at horg'
            cases horg'
        | some orgId =>
            refine Setting.wpE_bind (ensured_check ?_ ?_)
            · intro rotation s₆ hdecode
              have hpermitted : (WriteCall.rotate userId envId req).Permitted db₀ :=
                ⟨⟨access, haccess₀, hmanage⟩, ⟨orgId, horg₀⟩, rotation, hdecode⟩
              refine ensured_transaction (rotateTx access.2 envId orgId rotation) rfl
                (reads_cons (reads_cons (by simp))) hpermitted ?_ ?_ ?_
              · intro db db' v hdb
                have hmay : MayManage access.2 db := mayManage_of_envAccess haccess₀ hmanage hdb
                have horg' : db.orgOf envId = some orgId := (hdb.orgOf_eq envId).trans horg₀
                have hbase := decodeRotation_baseRevision hdecode
                have hvalid : (WriteCall.rotate userId envId req).Valid db ↔
                    RotationAdmissible envId orgId rotation db := by
                  constructor
                  · rintro ⟨orgId', rotation', ho, hd, hadmits⟩
                    rw [horg'] at ho
                    rw [hdecode] at hd
                    cases ho
                    cases hd
                    exact hadmits
                  · exact fun hadmits => ⟨orgId, rotation, horg', hdecode, hadmits⟩
                have happly : WriteCall.apply db (.rotate userId envId req) =
                    (db.rekeyed envId rotation).withRevision envId (req.baseRevision + 1) := by
                  simp only [WriteCall.apply, hdecode]
                rw [rotateTx_eq_ok_iff, hbase, hvalid, happly]
                constructor
                · rintro ⟨⟨-, hrevision, hadmits⟩, rfl, hdb'⟩
                  exact ⟨⟨hrevision, hadmits⟩, rfl, hdb'⟩
                · rintro ⟨⟨hrevision, hadmits⟩, rfl, hdb'⟩
                  exact ⟨⟨hmay, hrevision, hadmits⟩, rfl, hdb'⟩
              · intro db v db' hrun
                refine ⟨v, ?_, fun _ _ h => h⟩
                simp only [Stmt.exec, commit, hrun]
              · intro db e hrun
                simp only [Stmt.exec, commit, hrun]
            · intro e s₆ hdecode
              refine settled_of_refused (reads_cons (reads_cons (by simp))) ?_
              rintro ⟨-, -, rotation, hdecode'⟩
              rw [hdecode] at hdecode'
              cases hdecode'
      · intro s₄ e hsame' horg s₅
        refine settled_of_refused (reads_cons (reads_cons (by simp))) ?_
        rintro ⟨-, ⟨orgId, horg'⟩, -⟩
        rw [← hsame'.orgOf_eq, selectOrgId_eq_error horg] at horg'
        cases horg'
    · intro e s₃ hmanage
      refine settled_of_refused (reads_cons (by simp)) ?_
      rintro ⟨⟨access', haccess', hmanage'⟩, -⟩
      rw [haccess₀] at haccess'
      cases haccess'
      rw [hmanage] at hmanage'
      cases hmanage'
  · intro s₁ e hsame herror s₂
    replace herror : envAccess envId userId s₁.db = .error e := herror
    refine settled_of_refused (reads_cons (by simp)) ?_
    rintro ⟨⟨access', haccess', -⟩, -⟩
    rw [← hsame.envAccess_eq, herror] at haccess'
    cases haccess'

theorem ensured_handler (call : WriteCall) :
    Ensured db₀ i call.handler (fun v => Settled db₀ call (.ok v))
      (fun e => Settled db₀ call (.error e)) s ⟨some call, [], none, last⟩ := by
  cases call with
  | writeSecrets userId envId req => exact ensured_writeSecrets req
  | rotate userId envId req => exact ensured_rotate req

end Handlers

end Runs

theorem valid_ledgerOutline (db₀ : Db) : (ledgerOutline db₀).Valid where
  start := by
    rintro i call s l l' - - rfl
    refine Setting.wp_mono (@ensured_handler db₀ i _ _ call) ?_
    intro result s' l' _ h
    cases result with
    | ok v => exact h
    | error e => exact h
  finish := by
    rintro i call result s l l' - hpost rfl
    rintro call' result' ⟨⟩
    exact ⟨hpost.reads, hpost.turn, hpost.refused, hpost.decided, hpost.committed, hpost.failed⟩
  guar_rely := fun _ _ h => h
  idle_stable := fun _ _ hrely hidle call result hlast => (hidle call result hlast).later hrely.2

/-- In every interleaving of batches and rotations, the committed requests form a chain, and each
request that returned was settled by one compare-and-swap. -/
theorem writes_compare_and_swap {db₀ : Db} {w : Serving} (hw : service.Reaches (idle db₀) w) :
    Chain db₀ w.shared.log w.shared.db ∧
      ∀ i call result, (w.threads i).running = none → (w.threads i).own.last = some (call, result) →
        Settled db₀ call result w.shared (w.threads i).own := by
  have hidle : (ledgerOutline db₀).Good (idle db₀) := by
    refine ⟨⟨SameAccess.refl db₀, rfl⟩, ?_⟩
    rintro i call result ⟨⟩
  have hgood := hidle.reaches (valid_ledgerOutline db₀) hw
  exact ⟨hgood.inv.2, fun i call result hr => hgood.idle hr call result⟩

/-! ### A run -/

/-- A request that runs from its start to its result without others. -/
def WriteCall.alone (call : WriteCall) (s : Ledger) (l : Client) :
    Except Error Int × Ledger × Client :=
  (call.handler.run.expand Prog.perform).run (fun stmt t => serve stmt t.1 t.2)
    (s, ⟨some call, [], none, l.last⟩)

theorem reaches_alone {w : Serving} (i : Nat) (call : WriteCall)
    (hr : (w.threads i).running = none) :
    service.Reaches w ⟨(call.alone w.shared (w.threads i).own).2.1, Function.update w.threads i
      ⟨{ (call.alone w.shared (w.threads i).own).2.2 with
        last := some (call, (call.alone w.shared (w.threads i).own).1) }, none⟩⟩ := by
  let own : Client := ⟨some call, [], none, (w.threads i).own.last⟩
  let handle (stmt : Stmt) (t : Ledger × Client) : stmt.Answer × Ledger × Client :=
    serve stmt t.1 t.2
  have halone := @System.Alone.of_run _ _ _ _ _ (service.exec i) handle (fun _ _ => rfl)
    (service.prog i call) (w.shared, own)
  exact halone.completes rfl hr rfl rfl

end Server

open Server

/-- Two batches are computed against one revision, and the second is refused. -/
theorem writes_compare_and_swap_batches : ∃ w, service.Reaches (idle Team.db) w ∧
    w.shared.db.revisionOf Team.envId = some 1 ∧ Chain Team.db w.shared.log w.shared.db := by
  have h₁ := reaches_alone (w := idle Team.db) 0
    (.writeSecrets Team.alice Team.envId (Team.setVersion 0 1).req) rfl
  have h₂ := h₁.trans (reaches_alone 1
    (.writeSecrets Team.alice Team.envId (Team.setVersion 0 2).req) rfl)
  exact ⟨_, h₂, by decide +kernel, (writes_compare_and_swap h₂).1⟩

end Sotto
