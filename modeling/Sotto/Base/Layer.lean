import Sotto.Base.Holder
import Sotto.Base.Undisturbed

/-!
# Outlines over the base outline

An outline over one that is grounded owes only what it adds: for each kind of round of
an operation, that its own guarantee, its own invariant and what it says about the
running device are kept. A device that runs an operation holds one grant and one vault
key until the operation adopts another.
-/

namespace Sotto

open Core Cli

/-- A device that ended an operation. -/
abbrev Device.finished (op : Op) (r : Except Cli.Error Unit) (l : Device) : Device :=
  { l with
    last := some (op, r)
    edits := if op = .push ∧ r.toBool then ∅ else l.edits }

/-- A system whose steps are steps of the devices. -/
structure Faithful (S : Setup)
    (P : System Nat Cmd.Reply Shared Device Op (Except Cli.Error Unit)) : Prop where
  prog : P.prog = S.system.prog
  start : ∀ {d op s l l'}, P.start d op s l l' → l' = l.launched op
  exec : ∀ {d c s l r s' l'}, P.exec d c s l r s' l' → Executes d c s l r s' l'
  finish : ∀ {d op r s l l'}, P.finish d op r s l l' → l' = l.finished op r

theorem faithful_system (S : Setup) : Faithful S S.system :=
  ⟨rfl, fun h => h, fun h => h, fun h => h⟩

theorem Faithful.restrict {S : Setup}
    {P : System Nat Cmd.Reply Shared Device Op (Except Cli.Error Unit)} (h : Faithful S P)
    (K : Limit) : Faithful S (P.restrict K) :=
  ⟨h.prog, fun hs => h.start hs.1, fun he => h.exec he.1, fun hf => h.finish hf.1⟩

/-- The operations that rotate the vault key. -/
def Op.Rotates : Op → Prop
  | .rotate => True
  | .rotateEnv _ => True
  | _ => False

/-- An operation that ends without having synced: an edit, a rotation without adoption, or a
rotation that failed before its pull. -/
def EndsUnsynced : Op → Except Cli.Error Unit → Prop
  | .pull, _ => False
  | .push, _ => False
  | .rotate, r => r.toBool = false
  | _, _ => True

variable {S : Setup} {P : System Nat Cmd.Reply Shared Device Op (Except Cli.Error Unit)}
  {K : Limit}

/-- What an extension of an outline adds for each kind of round, where `I` holds while a
device with a grant and its key runs an operation. -/
structure Layer (S : Setup) (O : Outline (P.restrict K))
    (E : Outline.Extension Nat Cmd.Reply Shared Device Op (Except Cli.Error Unit))
    (I : Nat → Bytes → Bytes → Shared → Device → Prop) : Prop where
  guar_refl : ∀ d c s l, E.guar d c s l s
  start : ∀ {d op s l grant key}, O.inv s → E.inv s → O.idle d s l → E.idle d s l →
    E.limit.start d op s l → Holder S d grant key s (l.launched op) →
    I d grant key s (l.launched op)
  later : ∀ {d grant key s s' l l'}, I d grant key s l → Holder S d grant key s l →
    Later S d s s' → (O.extend E).inv s' → Looked ((O.extend E).setting d) s l s' l' →
    I d grant key s' l'
  set : ∀ {d grant key s l name value store}, I d grant key s l → Holder S d grant key s l →
    (O.extend E).inv s → SetBy S d s l key name value store →
    ((O.extend E).setting d).exec (.store (setCmd S d l name value)) s
      { l with draws := l.draws + 2 } (.ok ()) (afterSet name l.store store s)
      { l.edited store with draws := l.draws + 2 } →
    E.guar d (.store (setCmd S d l name value)) s { l with draws := l.draws + 2 }
        (afterSet name l.store store s) ∧
      E.inv (afterSet name l.store store s) ∧
      I d grant key (afterSet name l.store store s) { l.edited store with draws := l.draws + 2 }
  delete : ∀ {d grant key s l name id row}, I d grant key s l → Holder S d grant key s l →
    (O.extend E).inv s → l.store.secrets.lookup id = some row → row.deleted = false →
    SealedUnder S s.created key id row.version row.enc →
    ((O.extend E).setting d).exec (.store (deleteCmd S d name)) s l (.ok ()) s
      (l.edited (l.store.withTombstone id)) →
    I d grant key s (l.edited (l.store.withTombstone id))
  ended : ∀ {d op r grant key s l}, I d grant key s l → Holder S d grant key s l →
    (O.extend E).inv s → EndsUnsynced op r → E.post d op r s l
  pulled : ∀ {d op r grant key s l s' l'}, op = .pull ∨ op = .rotate → I d grant key s l →
    Holder S d grant key s l → (O.extend E).inv s' →
    Pulled S d ((O.extend E).setting d) grant s l r s' l' → E.post d op (r.map fun _ => ()) s' l'
  retried : ∀ {d grant key s l s' l'}, I d grant key s l → Holder S d grant key s l →
    (O.extend E).inv s' → PushRound S d ((O.extend E).setting d) grant s l none s' l' →
    I d grant key s' l'
  wrote : ∀ {d grant key s l s₁ s₂ s₄ revision l₁ access v l₄ l₅}, I d grant key s l →
    Holder S d grant key s l →
    Wrote S d ((O.extend E).setting d) grant s l s₁ s₂ s₄ revision l₁ access v l₄ l₅ →
    E.guar d (.server (.writeSecrets access S.envId
        ⟨revision, changesOf S (s₂.db.secretsOf S.envId) l₄.store⟩)) s₄ l₄
        (afterBatch S s₂ s₄ revision access l₄) ∧
      E.inv (afterBatch S s₂ s₄ revision access l₄)
  pushed : ∀ {d r grant key s l s' l'}, I d grant key s l → Holder S d grant key s l →
    (O.extend E).inv s' → PushRound S d ((O.extend E).setting d) grant s l (some r) s' l' →
    E.post d .push (r.map fun _ => ()) s' l'
  rotated : ∀ {d grant key s l s₁ s₂ s₇ revision keySeed access orgId rotation v l₇},
    S.orgId ≠ none → (∃ op, l.current = some op ∧ op.Rotates) → I d grant key s l →
    Holder S d grant key s l →
    Rotated S d ((O.extend E).setting d) s l s₁ s₂ s₇ revision keySeed access orgId rotation v l₇ →
    E.guar d (.server (.rotate access S.envId orgId rotation)) s₇ l₇
        (afterRotation S s₇ access orgId rotation) ∧
      E.inv (afterRotation S s₇ access orgId rotation) ∧
      I d grant key (afterRotation S s₇ access orgId rotation) l₇
  finish : ∀ {d op r s l}, O.inv s → E.inv s → O.post d op r s l → E.post d op r s l →
    E.limit.finish d op r s l → E.idle d s (l.finished op r)
  idle_stable : ∀ {d s s' l}, (O.extend E).inv s → (O.extend E).inv s' → Later S d s s' →
    O.idle d s l → E.idle d s l → E.idle d s' l

namespace Layer

variable {O : Outline (P.restrict K)}
  {E : Outline.Extension Nat Cmd.Reply Shared Device Op (Except Cli.Error Unit)}
  {I : Nat → Bytes → Bytes → Shared → Device → Prop}

theorem grounded (L : Layer S O E I) (F : Faithful S P)
    (Gr : ∀ d, Grounded S d (O.setting d)) (d : Nat) :
    Grounded S d ((O.extend E).setting d) :=
  (Gr d).extend F.exec fun c s l => L.guar_refl d c s l

/-- A layer makes a valid outline. -/
theorem valid (L : Layer S O E I) (F : Faithful S P) (Gr : ∀ d, Grounded S d (O.setting d))
    (sound : ∀ {d s l}, O.idle d s l → l.Sound S d s) (V : O.Valid) (hK : E.limit.Le K) :
    (O.extend E).Valid := by
  have Gr' := L.grounded F Gr
  refine V.extend hK ?_ ?_ ?_
  · rintro d op s l₀ l hi hei hidle heidle hstart hlimit
    obtain rfl : l = l₀.launched op := F.start hstart
    have hsound : (l₀.launched op).Sound S d s := (sound hidle).begin
    obtain ⟨grant, key, hg⟩ := Holder.exists_of_sound hsound
    have hI := L.start hi hei hidle heidle hlimit hg
    have hop : (l₀.launched op).current = some op := rfl
    have Gr := Gr' d
    generalize l₀.launched op = l at hg hI hop
    rw [F.prog]
    -- what holds while the operation runs
    let J : Shared → Device → Prop := fun s l =>
      Holder S d grant key s l ∧ I d grant key s l ∧ l.current = some op
    have hJ : J s l := ⟨hg, hI, hop⟩
    have hstable : ∀ {s l s' l'}, J s l → ((O.extend E).setting d).inv s' →
        Looked ((O.extend E).setting d) s l s' l' → J s' l' := by
      rintro s l s' l' ⟨hg, hI, hop⟩ hi' hlooked
      have hs := Gr.later hlooked.rely
      exact ⟨(hg.later hs (Gr.sound hi')).same hlooked.same, L.later hI hg hs hi' hlooked,
        hlooked.same.current.trans hop⟩
    have hrotate : op.Rotates → ∀ {s l s₁ s₂ s₇ revision keySeed access orgId rotation v l₇},
        S.orgId ≠ none → J s l → Rotated S d ((O.extend E).setting d) s l s₁ s₂ s₇ revision
          keySeed access orgId rotation v l₇ →
        ((O.extend E).setting d).guar (.server (.rotate access S.envId orgId rotation)) s₇ l₇
            (afterRotation S s₇ access orgId rotation) ∧
          ((O.extend E).setting d).inv (afterRotation S s₇ access orgId rotation) ∧
          J (afterRotation S s₇ access orgId rotation) l₇ := by
      rintro hrotates s l s₁ s₂ s₇ revision keySeed access orgId rotation v l₇ horg ⟨hg, hI, hop⟩ hrot
      obtain ⟨hguar, hinv, hI₇⟩ := L.rotated horg ⟨op, hop, hrotates⟩ hI hg hrot
      have hexec := hrot.committed.exec
      exact ⟨⟨hexec.1.2.2.2, hguar⟩, ⟨hexec.1.2.2.1, hinv⟩, hg.rotated Gr hrot, hI₇,
        hrot.same.current.trans hop⟩
    apply Follows.wp_of_ensures
    cases op with
    | set name value =>
        refine Gr.follows.ensures_set ?_ ?_
        · intro s₁ store hs₁ hi₁ hset hexec
          obtain ⟨hg₁, hI₁, hop⟩ := hstable hJ hi₁ (.refl hs₁ l)
          have hby := setBy_of_setTo hg₁.sound hg₁.opened hg₁.holds hset
          obtain ⟨hguar, hinv, hI₂⟩ := L.set hI₁ hg₁ hi₁ hby hexec
          refine ⟨⟨hexec.1.2.2.2, hguar⟩, ⟨hexec.1.2.2.1, hinv⟩, ?_⟩
          intro s' hs' hi'
          obtain ⟨hg', hI', -⟩ := hstable ⟨hg₁.set hby, hI₂, hop⟩ hi' (.refl hs' _)
          exact L.ended hI' hg' hi' trivial
        · intro e s' l' hs' hi' hl'
          obtain ⟨hg', hI', -⟩ := hstable hJ hi' (.of_still hs' hl')
          exact L.ended hI' hg' hi' trivial
    | delete name =>
        refine Gr.follows.ensures_delete ?_ ?_
        · intro s₁ s' store hs₁ hi₁ hdelete hexec hs' hi'
          obtain ⟨hg₁, hI₁, hop⟩ := hstable hJ hi₁ (.refl hs₁ l)
          obtain ⟨id, row, hrow, hlive, -, hsealed, rfl⟩ :=
            deleteBy_of_deleteTo hg₁.sound hg₁.opened hg₁.holds hdelete
          have hI₂ := L.delete hI₁ hg₁ hi₁ hrow hlive hsealed hexec
          obtain ⟨hg', hI', -⟩ := hstable ⟨hg₁.delete, hI₂, hop⟩ hi' (.refl hs' _)
          exact L.ended hI' hg' hi' trivial
        · intro e s' l' hs' hi' hl'
          obtain ⟨hg', hI', -⟩ := hstable hJ hi' (.of_still hs' hl')
          exact L.ended hI' hg' hi' trivial
    | pull =>
        refine Gr.follows.ensures_actionPull hg.opened ?_
        intro r s' l' hi' hpulled
        exact L.pulled (Or.inl rfl) hI hg hi' hpulled
    | push =>
        refine Gr.follows.ensures_actionPush (I := J) (fun h => h.1.opened) ?_ ?_ ?_ hg.opened ?_
        · rintro s l s' l' ⟨hg, hI, hop⟩ hi' hround
          have hI' := L.retried hI hg hi' hround
          cases hround with
          | forwarded _ hfetch hs hl' =>
              exact ⟨(hg.forward Gr hfetch (Gr.later hs) (Gr.sound hi')).same hl'.toSame, hI',
                hl'.current.trans (hfetch.same.current.trans hop)⟩
        · rintro s l s₁ s₂ s₄ revision l₁ access v l₄ l₅ ⟨hg, hI, -⟩ hwrote
          obtain ⟨hguar, hinv⟩ := L.wrote hI hg hwrote
          have hexec := hwrote.committed.exec
          exact ⟨⟨hexec.1.2.2.2, hguar⟩, hexec.1.2.2.1, hinv⟩
        · rintro s l r s' l' ⟨hg, hI, -⟩ hi' hround
          exact L.pushed hI hg hi' hround
        · intro s' l' hs' hi' hl'
          exact hstable hJ hi' (.of_still hs' hl')
    | rotate =>
        refine Gr.follows.ensures_rotateActive (I := J) (fun h => h.1.opened) hstable
          (hrotate trivial) ?_ ?_ hJ
        · rintro s l r s' l' ⟨hg, hI, -⟩ hi' hpulled
          exact L.pulled (Or.inr rfl) hI hg hi' hpulled
        · rintro e s l ⟨hg, hI, -⟩ hi'
          exact L.ended hI hg hi' rfl
    | rotateEnv revoke =>
        refine Gr.follows.ensures_actionRotateEnv (I := J) hstable
          (hrotate trivial) ?_ hJ
        rintro r s l ⟨hg, hI, -⟩ hi'
        exact L.ended hI hg hi' trivial
  · rintro d op r s l l' hi hei hpost hepost hfinish hlimit
    obtain rfl : l' = l.finished op r := F.finish hfinish
    exact L.finish hi hei hpost hepost hlimit
  · rintro d s s' l hi hei hi' hei' hs hidle heidle
    exact L.idle_stable ⟨hi, hei⟩ ⟨hi', hei'⟩ ((Gr d).later hs) hidle heidle

end Layer

end Sotto
