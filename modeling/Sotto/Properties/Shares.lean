import Sotto.Share.Links

/-!
# What share links answer

Whatever requests run side by side, a link gives what was posted to create it, at most as many times
as it says, and not after it has expired or its creator has revoked it. A link that is not found was
not created, or one of these is the reason. An answer that was lost may have used up a view.
-/

namespace Sotto

namespace Share

open Core (Ident)
open Server (Error)
open Prog (Record TracesE)

/-! ### What the requests issue -/

/-- When a request issues a command. -/
def Issues (op : Op) (l : Record Cmd.Reply) (c : Cmd) : Prop :=
  match c with
  | .insertShare token content => ∃ userId body raw, op = .create userId body ∧
      body.content userId = .ok content ∧ ⟨.random, .ok raw⟩ ∈ l ∧ token = randomToken raw
  | .claimView token => op = .fetch token
  | .revokeShare token userId => op = .revoke userId token
  | .respond (.ok (.fetched encBlob salt)) => ∃ token row, op = .fetch token ∧
      ⟨.claimView token, .ok (some row)⟩ ∈ l ∧ encBlob = encode row.1 ∧ salt = row.2.map encode
  | .respond (.ok (.created token _)) => ∃ userId body token' content row,
      op = .create userId body ∧ body.content userId = .ok content ∧
      ⟨.insertShare token' content, .ok row⟩ ∈ l ∧ token = row.1
  | _ => True

/-- What is known when a handler returns. -/
def Returns (op : Op) (l : Record Cmd.Reply) (r : Except Error Response) : Prop :=
  Issues op l (.respond r)

theorem returns_error {op : Op} {l : Record Cmd.Reply} {e : Error} : Returns op l (.error e) :=
  trivial

theorem handler_traces (op : Op) : TracesE (Issues op) (Returns op) op.handler [] := by
  cases op with
  | create userId body =>
    refine Prog.tracesE_check (fun _ _ => returns_error) fun content hcontent => ?_
    refine Prog.tracesE_ask trivial (fun _ => returns_error) fun raw => ?_
    refine Prog.tracesE_ask ⟨userId, body, raw, rfl, hcontent, List.mem_cons_self, rfl⟩
      (fun _ => returns_error) fun row => ?_
    exact ⟨userId, body, _, content, row, rfl, hcontent, List.mem_cons_self, rfl⟩
  | fetch token =>
    refine Prog.tracesE_ask rfl (fun _ => returns_error) fun row => ?_
    cases row with
    | none => exact trivial
    | some row => exact ⟨token, row, rfl, List.mem_cons_self, rfl, rfl⟩
  | revoke userId token =>
    refine Prog.tracesE_ask rfl (fun _ => returns_error) fun revoked => ?_
    cases revoked with
    | none => exact trivial
    | some _ => exact trivial

theorem service_traces (op : Op) :
    (service.prog op).Traces (Issues op) (fun _ _ => True) [] :=
  Prog.Traces.bind (handler_traces op) fun _ _ h => ⟨h, fun _ => trivial⟩

/-! ### What a command does to the row of a token -/

/-- The token and the content that a command creates a link with. -/
def creation : (Σ c : Cmd, c.Reply) → Option (List Char × Content)
  | ⟨.insertShare token content, _⟩ => some (token, content)
  | _ => none

/-- The token of a view that a command has claimed. -/
def view : (Σ c : Cmd, c.Reply) → Option (List Char)
  | ⟨.claimView token, .ok (some _)⟩ => some token
  | _ => none

/-- The token of a view that a command may have claimed. -/
def lostView : (Σ c : Cmd, c.Reply) → Option (List Char)
  | ⟨.claimView token, .error _⟩ => some token
  | _ => none

/-- What a command has given of a link. -/
def given : (Σ c : Cmd, c.Reply) → Option (List Char × Bytes × Option Bytes)
  | ⟨.claimView token, .ok (some row)⟩ => some (token, row)
  | _ => none

/-- The token of a link that a command has revoked. -/
def revocation : (Σ c : Cmd, c.Reply) → Option (List Char)
  | ⟨.revokeShare token _, .ok (some _)⟩ => some token
  | _ => none

/-- The token of a link that a command has created. -/
def acknowledged : (Σ c : Cmd, c.Reply) → Option (List Char)
  | ⟨.insertShare token _, .ok _⟩ => some token
  | _ => none

section Commands

variable {x : Σ c : Cmd, c.Reply} {token : List Char}

theorem cmd_of_view (h : view x = some token) : x.1 = .claimView token := by
  unfold view at h
  split at h
  · cases h
    rfl
  · cases h

theorem cmd_of_lostView (h : lostView x = some token) : x.1 = .claimView token := by
  unfold lostView at h
  split at h
  · cases h
    rfl
  · cases h

theorem view_of_given {row : Bytes × Option Bytes} (h : given x = some (token, row)) :
    view x = some token := by
  unfold given at h
  split at h
  · cases h
    rfl
  · cases h

theorem lostView_of_view (h : view x = some token) : lostView x = none := by
  unfold view at h
  split at h
  · rfl
  · cases h

theorem cmd_of_creation {content : Content} (h : creation x = some (token, content)) :
    x.1 = .insertShare token content := by
  unfold creation at h
  split at h
  · cases h
    rfl
  · cases h

end Commands

/-- The steps of the row of a token. -/
inductive RowStep (now : ℤ) (x : Σ c : Cmd, c.Reply) (token : List Char) :
    Option ShareLink → Option ShareLink → Prop
  | created {content} : creation x = some (token, content) → view x = none →
      revocation x = none → RowStep now x token none (some (content.link now))
  | claimed {link} : link.Open now → view x = some token ∨ lostView x = some token →
      (∀ row, given x = some (token, row) →
        row = (link.content.encBlob, link.content.passphraseSalt)) →
      revocation x = none → acknowledged x = none →
      RowStep now x token (some link) (some link.claimed)
  | revoked {link} : x.1 = .revokeShare token link.content.createdBy → view x = none →
      acknowledged x = none → RowStep now x token (some link) (some (link.revoked now))
  | same {row} : view x ≠ some token → revocation x ≠ some token → acknowledged x ≠ some token →
      RowStep now x token row row

section Steps

variable {c : Cmd} {now : ℤ} {db db' : Db} {r : c.Reply} {token : List Char}

theorem matching_eq_some {p : ShareLink → Prop} [DecidablePred p] {link : ShareLink}
    (h : db.matching token p = some link) : db.lookup token = some link ∧ p link := by
  obtain ⟨hlookup, hp⟩ := Option.filter_eq_some_iff.1 h
  exact ⟨hlookup, of_decide_eq_true hp⟩

theorem matching_eq_none {p : ShareLink → Prop} [DecidablePred p]
    (h : db.matching token p = none) : ∀ link, db.lookup token = some link → ¬ p link := by
  intro link hlookup hp
  have hmatching : db.matching token p = some link :=
    Option.filter_eq_some_iff.2 ⟨hlookup, decide_eq_true hp⟩
  rw [h] at hmatching
  cases hmatching

theorem lookup_modify_other {f : ShareLink → ShareLink} {token' : List Char} (h : token ≠ token')
    (p : Prop) [Decidable p] :
    (if p then Table.modify token' f db else db).lookup token = db.lookup token := by
  split
  · exact Table.lookup_modify_of_ne h f db
  · rfl

theorem Cmd.Does.rowStep (h : c.Does now db r db') (token : List Char) :
    RowStep now ⟨c, r⟩ token (db.lookup token) (db'.lookup token) := by
  cases c with
  | random =>
    obtain ⟨-, rfl⟩ := h
    exact .same (by simp [view]) (by simp [revocation]) (by simp [acknowledged])
  | respond _ =>
    obtain ⟨-, rfl⟩ := h
    exact .same (by simp [view]) (by simp [revocation]) (by simp [acknowledged])
  | insertShare token' content =>
    obtain ⟨hnone, rfl, rfl⟩ := h
    by_cases htoken : token = token'
    · subst htoken
      rw [hnone, AList.lookup_insert]
      exact .created rfl rfl rfl
    · rw [AList.lookup_insert_ne htoken]
      refine .same (by simp [view]) (by simp [revocation]) ?_
      simpa [acknowledged] using fun heq => htoken heq.symm
  | claimView token' =>
    obtain ⟨rfl, rfl⟩ := h
    by_cases htoken : token = token'
    · subst htoken
      cases hmatching : db.matching token fun link => link.Open now with
      | none => exact .same (by simp [view]) (by simp [revocation]) (by simp [acknowledged])
      | some link =>
        obtain ⟨hlookup, hopen⟩ := matching_eq_some hmatching
        rw [Option.isSome_some, if_pos rfl, Table.lookup_modify_self, hlookup]
        exact .claimed hopen (.inl rfl) (fun row hrow => by cases hrow; rfl) rfl rfl
    · rw [lookup_modify_other htoken]
      refine .same ?_ (by simp [revocation]) (by simp [acknowledged])
      intro hview
      simp only [view] at hview
      split at hview
      · simp_all
      · cases hview
  | revokeShare token' userId =>
    obtain ⟨rfl, rfl⟩ := h
    by_cases htoken : token = token'
    · subst htoken
      cases hmatching : db.matching token fun link => link.Revocable userId with
      | none => exact .same (by simp [view]) (by simp [revocation]) (by simp [acknowledged])
      | some link =>
        obtain ⟨hlookup, rfl, -⟩ := matching_eq_some hmatching
        rw [Option.isSome_some, if_pos rfl, Table.lookup_modify_self, hlookup]
        exact .revoked rfl rfl rfl
    · rw [lookup_modify_other htoken]
      refine .same (by simp [view]) ?_ (by simp [acknowledged])
      intro hrevocation
      simp only [revocation] at hrevocation
      split at hrevocation
      · simp_all
      · cases hrevocation

/-- The answer of a step is lost. -/
theorem RowStep.lost {e : Error} {row row' : Option ShareLink}
    (h : RowStep now ⟨c, r⟩ token row row') : RowStep now ⟨c, .error e⟩ token row row' := by
  have hview : view ⟨c, .error e⟩ = none := by cases c <;> rfl
  have hrevocation : revocation ⟨c, .error e⟩ = none := by cases c <;> rfl
  have hacknowledged : acknowledged ⟨c, .error e⟩ = none := by cases c <;> rfl
  cases h with
  | created hcreation =>
    refine .created ?_ hview hrevocation
    cases c with
    | insertShare => exact hcreation
    | _ => cases hcreation
  | claimed hopen hclaim =>
    obtain rfl : c = .claimView token := hclaim.elim cmd_of_view cmd_of_lostView
    exact .claimed hopen (.inr rfl) nofun hrevocation hacknowledged
  | revoked hcmd => exact .revoked hcmd hview hacknowledged
  | same =>
    exact .same (by rw [hview]; nofun) (by rw [hrevocation]; nofun) (by rw [hacknowledged]; nofun)

theorem Cmd.Executes.rowStep (h : c.Executes now db r db') (token : List Char) :
    RowStep now ⟨c, r⟩ token (db.lookup token) (db'.lookup token) := by
  rcases h with h | ⟨-, rfl, rfl | ⟨r', h⟩⟩
  · exact h.rowStep token
  · refine .same ?_ ?_ ?_ <;> cases c <;> exact nofun
  · exact (h.rowStep token).lost

end Steps

/-! ### The rows and the history -/

section Histories

variable {ι : Type}

abbrev Log (ι : Type) := List (Event ι Cmd.Reply Op)

/-- A command of a log, with its reply. -/
def reply (e : Event ι Cmd.Reply Op) : Σ c : Cmd, c.Reply := ⟨e.cmd, e.reply⟩

/-- How many views of a link were claimed. -/
def views (log : Log ι) (token : List Char) : ℕ :=
  log.countP fun e => decide (view (reply e) = some token)

/-- How many views of a link may have been claimed, with no answer. -/
def lostViews (log : Log ι) (token : List Char) : ℕ :=
  log.countP fun e => decide (lostView (reply e) = some token)

/-- A row is what the history makes of it. -/
structure RowKept (log : Log ι) (token : List Char) (link : ShareLink) : Prop where
  created : ∃ e ∈ log, creation (reply e) = some (token, link.content) ∧
    link.expiresAt = link.content.ttlSeconds.map (e.time + ·) ∧
      ∀ g ∈ log, acknowledged (reply g) = some token → g = e
  claimed : views log token ≤ link.viewCount
  counted : link.viewCount ≤ views log token + lostViews log token
  given : ∀ g ∈ log, ∀ row, given (reply g) = some (token, row) →
    row = (link.content.encBlob, link.content.passphraseSalt)
  bounded : (link.viewCount : ℤ) ≤ link.content.maxViews ∧ link.content.maxViews ≤ maxViews
  revoked : (∃ e ∈ log, revocation (reply e) = some token) → link.revokedAt ≠ none
  revokedBy : link.revokedAt ≠ none →
    ∃ e ∈ log, e.cmd = .revokeShare token link.content.createdBy

/-- The rows are what the history makes of them. -/
structure Kept (log : Log ι) (db : Db) : Prop where
  row : ∀ token link, db.lookup token = some link → RowKept log token link
  absent : ∀ token, db.lookup token = none → views log token = 0 ∧
    ∀ e ∈ log, revocation (reply e) ≠ some token ∧ acknowledged (reply e) ≠ some token

/-- What a body asks for. -/
structure Asks (body : CreateShare) (userId : Ident) (content : Content) : Prop where
  encBlob : encode content.encBlob = body.encBlob
  passphraseSalt : content.passphraseSalt.map encode = body.passphraseSalt
  createdBy : content.createdBy = userId
  maxViews : content.maxViews = body.maxViews
  ttlSeconds : content.ttlSeconds = body.ttlSeconds
  valid : 1 ≤ content.maxViews ∧ content.maxViews ≤ Share.maxViews

theorem valid_of_validate {views : ℤ} {ttl : Option ℤ} (h : validate views ttl = .ok ()) :
    1 ≤ views ∧ views ≤ maxViews := by
  unfold validate at h
  split at h
  · cases h
  · next hviews => exact not_not.1 hviews

theorem asks_of_content {body : CreateShare} {userId : Ident} {content : Content}
    (h : body.content userId = .ok content) : Asks body userId content := by
  obtain ⟨encBlob, views, ttl, salt⟩ := body
  simp only [CreateShare.content, bind, Except.bind] at h
  split at h
  · cases h
  · next blob hblob =>
    split at h
    · cases h
    · next bytes hsalt =>
      split at h
      · cases h
      · next hvalidate =>
        cases h
        refine ⟨encode_of_decode hblob, ?_, rfl, rfl, rfl, valid_of_validate hvalidate⟩
        cases salt with
        | none =>
          cases hsalt
          rfl
        | some s =>
          simp only [Option.mapM_some] at hsalt
          cases hs : decode s "passphrase_salt" maxSalt with
          | error e =>
            rw [hs] at hsalt
            cases hsalt
          | ok b =>
            rw [hs] at hsalt
            cases hsalt
            exact congrArg some (encode_of_decode hs)

theorem views_cons (log : Log ι) (e : Event ι Cmd.Reply Op) (token : List Char) :
    views (e :: log) token = views log token + if view (reply e) = some token then 1 else 0 := by
  simp only [views, List.countP_cons, decide_eq_true_eq]

theorem lostViews_cons (log : Log ι) (e : Event ι Cmd.Reply Op) (token : List Char) :
    lostViews (e :: log) token =
      lostViews log token + if lostView (reply e) = some token then 1 else 0 := by
  simp only [lostViews, List.countP_cons, decide_eq_true_eq]

/-- A row that stays as it is, or is claimed or revoked by a command that says so. -/
theorem RowKept.cons {log : Log ι} {token : List Char} {link link' : ShareLink}
    {e : Event ι Cmd.Reply Op} (h : RowKept log token link)
    (hcontent : link'.content = link.content) (hexpires : link'.expiresAt = link.expiresAt)
    (hviews : views (e :: log) token ≤ link'.viewCount)
    (hlost : link'.viewCount ≤ views (e :: log) token + lostViews (e :: log) token)
    (hbounded : (link'.viewCount : ℤ) ≤ link.content.maxViews)
    (hrevoked : revocation (reply e) = some token ∨ link.revokedAt ≠ none → link'.revokedAt ≠ none)
    (hby : link'.revokedAt ≠ none → link.revokedAt ≠ none ∨
      e.cmd = .revokeShare token link.content.createdBy)
    (hacknowledged : acknowledged (reply e) ≠ some token)
    (hgiven : ∀ row, Share.given (reply e) = some (token, row) →
      row = (link.content.encBlob, link.content.passphraseSalt)) :
    RowKept (e :: log) token link' := by
  obtain ⟨c, hc, hcreation, hexpiry, hunique⟩ := h.created
  refine ⟨⟨c, List.mem_cons_of_mem _ hc, ?_, ?_, ?_⟩, hviews, hlost, ?_, ?_, ?_, ?_⟩
  · rw [hcontent]
    exact hcreation
  · rw [hexpires, hcontent]
    exact hexpiry
  · intro g hg hcreated
    rcases List.mem_cons.1 hg with rfl | hg
    · exact absurd hcreated hacknowledged
    · exact hunique g hg hcreated
  · rw [hcontent]
    intro g hg row hrow
    rcases List.mem_cons.1 hg with rfl | hg
    · exact hgiven row hrow
    · exact h.given g hg row hrow
  · rw [hcontent]
    exact ⟨hbounded, h.bounded.2⟩
  · rintro ⟨g, hg, hrevocation⟩
    rcases List.mem_cons.1 hg with rfl | hg
    · exact hrevoked (.inl hrevocation)
    · exact hrevoked (.inr (h.revoked ⟨g, hg, hrevocation⟩))
  · intro hsome
    rw [hcontent]
    rcases hby hsome with hsome | hcmd
    · obtain ⟨g, hg, hcmd⟩ := h.revokedBy hsome
      exact ⟨g, List.mem_cons_of_mem _ hg, hcmd⟩
    · exact ⟨e, List.mem_cons_self, hcmd⟩

/-- A command keeps the row of each token. -/
theorem Kept.cons {log : Log ι} {db db' : Db} {e : Event ι Cmd.Reply Op} (h : Kept log db)
    (hvalid : ∀ token content, e.cmd = .insertShare token content →
      1 ≤ content.maxViews ∧ content.maxViews ≤ maxViews)
    (hstep : e.cmd.Executes e.time db e.reply db') : Kept (e :: log) db' := by
  constructor
  · intro token link' hlookup
    have hrow : RowStep e.time (reply e) token (db.lookup token) (db'.lookup token) :=
      hstep.rowStep token
    rw [hlookup] at hrow
    generalize hbefore : db.lookup token = row at hrow
    cases hrow with
    | @created content hcreation hview hrevocation =>
      obtain ⟨hviews, habsent⟩ := h.absent token hbefore
      have hcmd := cmd_of_creation hcreation
      have hvalid := hvalid token content hcmd
      have hcount : views (e :: log) token = 0 := by
        rw [views_cons, hviews, hview]
        rfl
      refine ⟨⟨e, List.mem_cons_self, hcreation, rfl, ?_⟩, ?_, Nat.zero_le _, ?_,
        ⟨?_, hvalid.2⟩, ?_, ?_⟩
      · intro g hg hcreated
        rcases List.mem_cons.1 hg with rfl | hg
        · rfl
        · exact absurd hcreated (habsent g hg).2
      · exact hcount.le
      · intro g hg row hrow
        have hpos : 0 < views (e :: log) token :=
          List.countP_pos_iff.2 ⟨g, hg, decide_eq_true (view_of_given hrow)⟩
        omega
      · exact Int.le_trans Int.one_nonneg hvalid.1
      · rintro ⟨g, hg, hgone⟩
        rcases List.mem_cons.1 hg with rfl | hg
        · rw [hrevocation] at hgone
          cases hgone
        · exact absurd hgone (habsent g hg).1
      · exact fun hsome => absurd rfl hsome
    | @claimed link hopen hclaim hgiven hrevocation hacknowledged =>
      have hkept := h.row token link hbefore
      have hcount : views (e :: log) token + lostViews (e :: log) token =
          views log token + lostViews log token + 1 := by
        rw [views_cons, lostViews_cons]
        by_cases hview : view (reply e) = some token
        · rw [if_pos hview, lostView_of_view hview, if_neg nofun]
          omega
        · rw [if_neg hview, if_pos (hclaim.resolve_left hview)]
          omega
      have hview : views (e :: log) token ≤ views log token + 1 := by
        rw [views_cons]
        split <;> omega
      refine hkept.cons rfl rfl ?_ ?_ ?_ ?_ (fun hsome => .inl hsome) (hacknowledged ▸ nofun)
        hgiven
      · exact hview.trans (Nat.succ_le_succ hkept.claimed)
      · rw [hcount]
        exact Nat.succ_le_succ hkept.counted
      · have := hopen.2.2
        simp only [ShareLink.claimed]
        omega
      · rintro (hrevoked | hrevoked)
        · rw [hrevocation] at hrevoked
          cases hrevoked
        · exact hrevoked
    | @revoked link hcmd hview hacknowledged =>
      have hkept := h.row token link hbefore
      have hcount : views (e :: log) token = views log token := by
        rw [views_cons, hview]
        rfl
      refine hkept.cons rfl rfl ?_ ?_ hkept.bounded.1 (fun _ => nofun) (fun _ => .inr hcmd)
        (hacknowledged ▸ nofun) fun row hrow => ?_
      · exact hcount.le.trans hkept.claimed
      · rw [hcount, lostViews_cons]
        exact hkept.counted.trans (by omega)
      · rw [view_of_given hrow] at hview
        cases hview
    | same hview hrevocation hacknowledged =>
      have hkept := h.row token link' hbefore
      have hcount : views (e :: log) token = views log token := by
        rw [views_cons, if_neg hview, Nat.add_zero]
      refine hkept.cons rfl rfl ?_ ?_ hkept.bounded.1 ?_ (fun hsome => .inl hsome) hacknowledged
        fun row hrow => absurd (view_of_given hrow) hview
      · exact hcount.le.trans hkept.claimed
      · rw [hcount, lostViews_cons]
        exact hkept.counted.trans (by omega)
      · rintro (hrevoked | hrevoked)
        · exact absurd hrevoked hrevocation
        · exact hrevoked
  · intro token hlookup
    have hrow : RowStep e.time (reply e) token (db.lookup token) (db'.lookup token) :=
      hstep.rowStep token
    rw [hlookup] at hrow
    generalize hbefore : db.lookup token = row at hrow
    cases hrow with
    | same hview hrevocation hacknowledged =>
      obtain ⟨hviews, habsent⟩ := h.absent token hbefore
      refine ⟨by rw [views_cons, hviews, if_neg hview], fun g hg => ?_⟩
      rcases List.mem_cons.1 hg with rfl | hg
      · exact ⟨hrevocation, hacknowledged⟩
      · exact habsent g hg

/-- Whatever the requests issued, the rows are what the history makes of them. -/
theorem kept_of_run [DecidableEq ι] {log : Log ι} {t₀ now : ℤ} {db₀ db : Db}
    (hempty : ∀ token, db₀.lookup token = none) (h : service.Run Issues db₀ t₀ log now db) :
    Kept log db := by
  induction h with
  | nil =>
    refine ⟨fun token link hlookup => ?_, fun token _ => ⟨List.countP_nil, fun e he => ?_⟩⟩
    · rw [hempty] at hlookup
      cases hlookup
    · cases he
  | @cons log now db e db' _ hissued _ _ hdoes ih =>
    refine ih.cons (fun token content hcmd => ?_) hdoes
    rw [hcmd] at hissued
    obtain ⟨userId, body, -, -, hcontent, -⟩ := hissued
    exact (asks_of_content hcontent).valid

/-- The request that created a link, with what it posted. No other was told that it did. -/
structure CreatedBy (log : Log ι) (token : List Char) (c : Event ι Cmd.Reply Op) (userId : Ident)
    (body : CreateShare) : Prop where
  mem : c ∈ log
  op : c.op = .create userId body
  cmd : ∃ content, c.cmd = .insertShare token content ∧ Asks body userId content
  only : ∀ g ∈ log, acknowledged (reply g) = some token → g = c

section Runs

variable [DecidableEq ι] {log earlier later : Log ι} {f : Event ι Cmd.Reply Op} {t₀ now : ℤ}
  {db₀ db : Db} {token : List Char}

/-- A link was created by a request that asked for it. -/
theorem RowKept.createdBy {link : ShareLink} (h : RowKept log token link)
    (hrun : service.Run Issues db₀ t₀ log now db) : ∃ c userId body,
      CreatedBy log token c userId body ∧ Asks body userId link.content ∧
        link.expiresAt = body.ttlSeconds.map (c.time + ·) := by
  obtain ⟨c, hc, hcreation, hexpires, hunique⟩ := h.created
  have hcmd : c.cmd = .insertShare token link.content := cmd_of_creation hcreation
  obtain ⟨l, -, hissued⟩ := hrun.issued hc
  rw [hcmd] at hissued
  obtain ⟨userId, body, -, hop, hcontent, -⟩ := hissued
  have hasks := asks_of_content hcontent
  exact ⟨c, userId, body, ⟨hc, hop, ⟨link.content, hcmd, hasks⟩, hunique⟩, hasks,
    hasks.ttlSeconds ▸ hexpires⟩

/-- What a claimed view gives, when. -/
theorem claimed_of_run (hempty : ∀ token, db₀.lookup token = none)
    (h : service.Run Issues db₀ t₀ (later ++ f :: earlier) now db) {row : Bytes × Option Bytes}
    (hf : reply f = ⟨.claimView token, .ok (some row)⟩) : ∃ c userId body,
      CreatedBy earlier token c userId body ∧ encode row.1 = body.encBlob ∧
        row.2.map encode = body.passphraseSalt ∧ (∀ ttl ∈ body.ttlSeconds, f.time < c.time + ttl) ∧
        (∀ g ∈ earlier, revocation (reply g) ≠ some token) ∧
        (views (f :: earlier) token : ℤ) ≤ body.maxViews ∧ body.maxViews ≤ maxViews := by
  obtain ⟨now₁, s₁, s₂, hrun, -, -, hdoes, -⟩ := h.split
  obtain ⟨i, op, time, cmd, r⟩ := f
  cases hf
  rcases hdoes with ⟨hreply, -⟩ | ⟨-, hlost, -⟩
  · obtain ⟨link, hmatching, rfl⟩ := Option.map_eq_some_iff.1 (Except.ok.inj hreply).symm
    obtain ⟨hlookup, hrevoked, hexpires, hviews⟩ := matching_eq_some hmatching
    have hkept := (kept_of_run hempty hrun).row token link hlookup
    obtain ⟨c, userId, body, hcreated, hasks, hexpiry⟩ := hkept.createdBy hrun
    refine ⟨c, userId, body, hcreated, hasks.encBlob, hasks.passphraseSalt, ?_, ?_, ?_, ?_⟩
    · intro ttl httl
      exact hexpires _ (hexpiry ▸ Option.mem_map_of_mem _ httl)
    · exact fun g hg hgone => hkept.revoked ⟨g, hg, hgone⟩ hrevoked
    · have hclaimed := hkept.claimed
      have hmax := hasks.maxViews
      rw [views_cons, if_pos (show view _ = some token from rfl)]
      omega
    · exact hasks.maxViews ▸ hasks.valid.2
  · cases hlost

/-- The token of a link that a command has not found. -/
def miss : (Σ c : Cmd, c.Reply) → Option (List Char)
  | ⟨.claimView token, .ok none⟩ => some token
  | _ => none

omit [DecidableEq ι] in
theorem reply_of_miss (h : miss (reply f) = some token) :
    reply f = ⟨.claimView token, .ok none⟩ := by
  unfold miss at h
  split at h
  · next heq =>
    cases h
    exact heq
  · cases h

/-- Why a link is not found. -/
theorem missed_of_run (hempty : ∀ token, db₀.lookup token = none)
    (h : service.Run Issues db₀ t₀ (later ++ f :: earlier) now db)
    (hf : miss (reply f) = some token) :
    (∀ c ∈ earlier, acknowledged (reply c) ≠ some token) ∨ ∃ c userId body,
      CreatedBy earlier token c userId body ∧
        ((∃ ttl ∈ body.ttlSeconds, c.time + ttl ≤ f.time) ∨
          (∃ g ∈ earlier, g.op = .revoke userId token) ∨
          body.maxViews ≤ views earlier token + lostViews earlier token) := by
  obtain ⟨now₁, s₁, s₂, hrun, -, -, hdoes, -⟩ := h.split
  have hreply := reply_of_miss hf
  obtain ⟨i, op, time, cmd, r⟩ := f
  cases hreply
  have hkept := kept_of_run hempty hrun
  rcases hdoes with ⟨hreply, -⟩ | ⟨-, hlost, -⟩
  · cases hlookup : s₁.lookup token with
    | none => exact .inl fun c hc => ((hkept.absent token hlookup).2 c hc).2
    | some link =>
      have hrow := hkept.row token link hlookup
      obtain ⟨c, userId, body, hcreated, hasks, hexpiry⟩ := hrow.createdBy hrun
      have hclosed : ¬ link.Open time :=
        matching_eq_none (Option.map_eq_none_iff.1 (Except.ok.inj hreply).symm) link hlookup
      refine .inr ⟨c, userId, body, hcreated, ?_⟩
      by_cases hrevoked : link.revokedAt = none
      · by_cases hexpired : ∀ t ∈ link.expiresAt, time < t
        · refine .inr (.inr ?_)
          have hviews : ¬ (link.viewCount : ℤ) < link.content.maxViews :=
            fun hlt => hclosed ⟨hrevoked, hexpired, hlt⟩
          have hcounted := hrow.counted
          have hmax := hasks.maxViews
          omega
        · simp only [not_forall, not_lt] at hexpired
          obtain ⟨t, ht, hle⟩ := hexpired
          rw [hexpiry] at ht
          obtain ⟨ttl, httl, rfl⟩ := Option.map_eq_some_iff.1 ht
          exact .inl ⟨ttl, httl, hle⟩
      · obtain ⟨g, hg, hcmd⟩ := hrow.revokedBy hrevoked
        obtain ⟨l, -, hissued⟩ := hrun.issued hg
        rw [hcmd] at hissued
        exact .inr (.inl ⟨g, hg, hasks.createdBy ▸ hissued⟩)
  · cases hlost

omit [DecidableEq ι] in
theorem token_of_inserted {time : ℤ} {content : Content} {row : List Char × Option ℤ}
    (h : (Cmd.insertShare token content).Executes time db (.ok row) db₀) : row.1 = token := by
  rcases h with ⟨-, hrow, -⟩ | ⟨-, hlost, -⟩
  · cases hrow
    rfl
  · cases hlost

theorem created_token (h : service.Run Issues db₀ t₀ log now db) {g : Event ι Cmd.Reply Op}
    (hg : g ∈ log) {content : Content} {row : List Char × Option ℤ}
    (hreply : reply g = ⟨.insertShare token content, .ok row⟩) : row.1 = token := by
  obtain ⟨later, earlier, rfl⟩ := List.append_of_mem hg
  obtain ⟨now₁, s₁, s₂, -, -, -, hdoes, -⟩ := h.split
  obtain ⟨i, op, time, cmd, r⟩ := g
  cases hreply
  exact token_of_inserted hdoes

omit [DecidableEq ι] in
theorem length_of_random {time : ℤ} {raw : Bytes}
    (h : Cmd.random.Executes time db (.ok raw) db₀) : raw.length = 16 := by
  rcases h with ⟨⟨raw', hraw, hlength⟩, -⟩ | ⟨hstatement, -⟩
  · cases hraw
    exact hlength
  · cases hstatement

theorem drawn_length (h : service.Run Issues db₀ t₀ log now db) {g : Event ι Cmd.Reply Op}
    (hg : g ∈ log) {raw : Bytes} (hreply : reply g = ⟨.random, .ok raw⟩) : raw.length = 16 := by
  obtain ⟨later, earlier, rfl⟩ := List.append_of_mem hg
  obtain ⟨now₁, s₁, s₂, -, -, -, hdoes, -⟩ := h.split
  obtain ⟨i, op, time, cmd, r⟩ := g
  cases hreply
  exact length_of_random hdoes

end Runs

/-- The requests that run side by side. -/
abbrev Requests (ι : Type) : Type :=
  Config ι Cmd.Reply (Logged ι Cmd.Reply Db Op) (Option Op) Op (Except Error Unit)

section Requests

variable [DecidableEq ι] {w₀ w : Requests ι}

/-- What a request has answered a fetch with. -/
def answered : (Σ c : Cmd, c.Reply) → Option (List Char × Option (List Char))
  | ⟨.respond (.ok (.fetched encBlob salt)), _⟩ => some (encBlob, salt)
  | _ => none

omit [DecidableEq ι] in
theorem cmd_of_answered {e : Event ι Cmd.Reply Op} {encBlob : List Char}
    {salt : Option (List Char)} (h : answered (reply e) = some (encBlob, salt)) :
    e.cmd = .respond (.ok (.fetched encBlob salt)) := by
  unfold answered at h
  split at h
  · next heq =>
    cases h
    exact congrArg Sigma.fst heq
  · cases h

/-- What the fetches of a link are answered with is what the request posted that was answered with
its token. -/
theorem posted_of_answered {log : Log ι} {t₀ now : ℤ} {db₀ db : Db}
    (hempty : ∀ token, db₀.lookup token = none) (h : service.Run Issues db₀ t₀ log now db)
    {c e : Event ι Cmd.Reply Op} (hc : c ∈ log) {token : List Char} {expiresAt : Option ℤ}
    (hcreated : c.cmd = .respond (.ok (.created token expiresAt))) (he : e ∈ log)
    (hop : e.op = .fetch token) {encBlob : List Char} {salt : Option (List Char)}
    (hanswer : answered (reply e) = some (encBlob, salt)) : ∃ userId body,
      c.op = .create userId body ∧ encBlob = body.encBlob ∧ salt = body.passphraseSalt := by
  obtain ⟨l, hl, hissued⟩ := h.issued hc
  rw [hcreated] at hissued
  obtain ⟨userId, body, token', content, row, hcreate, hcontent, hinsert, rfl⟩ := hissued
  obtain ⟨g, hg, -, hinserted⟩ := mem_own.1 (hl _ hinsert)
  obtain ⟨l', hl', hissued'⟩ := h.issued he
  rw [cmd_of_answered hanswer] at hissued'
  obtain ⟨token'', row', hfetch, hclaim, rfl, rfl⟩ := hissued'
  obtain ⟨f, hf, -, hclaimed⟩ := mem_own.1 (hl' _ hclaim)
  obtain rfl : row.1 = token'' := Op.fetch.inj (hop.symm.trans hfetch)
  have hacknowledged : acknowledged (reply g) = some row.1 := by
    rw [show reply g = _ from hinserted, created_token h hg hinserted]
    rfl
  have hgiven : given (reply f) = some (row.1, row') := by
    rw [show reply f = _ from hclaimed]
    rfl
  have hkept := kept_of_run hempty h
  cases hlookup : db.lookup row.1 with
  | none => exact absurd hacknowledged ((hkept.absent row.1 hlookup).2 g hg).2
  | some link =>
    have hrow := hkept.row row.1 link hlookup
    obtain ⟨c', -, hcreation, -, hunique⟩ := hrow.created
    obtain rfl := hunique g hg hacknowledged
    rw [show reply g = _ from hinserted] at hcreation
    obtain rfl : content = link.content := (Prod.mk.inj (Option.some.inj hcreation)).2
    obtain rfl := hrow.given f hf row' hgiven
    have hasks := asks_of_content hcontent
    exact ⟨userId, body, hcreate, hasks.encBlob, hasks.passphraseSalt⟩

/-- What a fetch answers with is what was posted to create the link. Its view was claimed while the
link was not expired or revoked, and no more views were claimed than the link says. -/
theorem fetched_as_posted (hopening : Service.Opening w₀)
    (hempty : ∀ token, w₀.shared.state.lookup token = none)
    (h : service.system.Reaches w₀ w) {e : Event ι Cmd.Reply Op} (he : e ∈ w.shared.log)
    {encBlob : List Char} {salt : Option (List Char)}
    (hanswer : answered (reply e) = some (encBlob, salt)) :
    ∃ later f earlier token, w.shared.log = later ++ f :: earlier ∧ f.who = e.who ∧
      e.op = .fetch token ∧ view (reply f) = some token ∧ ∃ c userId body,
        CreatedBy earlier token c userId body ∧ encBlob = body.encBlob ∧
        salt = body.passphraseSalt ∧ (∀ ttl ∈ body.ttlSeconds, f.time < c.time + ttl) ∧
        (∀ g ∈ earlier, revocation (reply g) ≠ some token) ∧
        (views (f :: earlier) token : ℤ) ≤ body.maxViews ∧ body.maxViews ≤ maxViews := by
  have hrun := Service.run_of_reaches service_traces hopening h
  obtain ⟨l, hl, hissued⟩ := hrun.issued he
  rw [cmd_of_answered hanswer] at hissued
  obtain ⟨token, row, hop, hclaim, rfl, rfl⟩ := hissued
  obtain ⟨f, hf, hwho, hreply⟩ := mem_own.1 (hl _ hclaim)
  obtain ⟨later, earlier, hlog⟩ := List.append_of_mem hf
  rw [hlog] at hrun
  obtain ⟨c, userId, body, hcreated, hblob, hsalt, hrest⟩ := claimed_of_run hempty hrun hreply
  have hview : view (reply f) = some token := by
    rw [show reply f = _ from hreply]
    rfl
  exact ⟨later, f, earlier, token, hlog, hwho, hop, hview, c, userId, body, hcreated, hblob, hsalt,
    hrest⟩

/-- A link that a fetch does not find was not created as far as anybody was told, or it has expired,
or its creator has asked for its revocation, or its views may all have been claimed. -/
theorem missed_with_reason (hopening : Service.Opening w₀)
    (hempty : ∀ token, w₀.shared.state.lookup token = none)
    (h : service.system.Reaches w₀ w) {later earlier : Log ι} {f : Event ι Cmd.Reply Op}
    (hlog : w.shared.log = later ++ f :: earlier) {token : List Char}
    (hf : miss (reply f) = some token) :
    (∀ c ∈ earlier, acknowledged (reply c) ≠ some token) ∨ ∃ c userId body,
      CreatedBy earlier token c userId body ∧
        ((∃ ttl ∈ body.ttlSeconds, c.time + ttl ≤ f.time) ∨
          (∃ g ∈ earlier, g.op = .revoke userId token) ∨
          body.maxViews ≤ views earlier token + lostViews earlier token) := by
  have hrun := Service.run_of_reaches service_traces hopening h
  rw [hlog] at hrun
  exact missed_of_run hempty hrun hf

end Requests

end Histories

/-! ### A link that is fetched twice -/

namespace Trial

/-- How commands are answered, where nothing fails. -/
def answer (_ : Op) (c : Cmd) (now : ℤ) (db : Db) : c.Reply × Db :=
  match c with
  | .random => (.ok (List.replicate 16 0), db)
  | .insertShare token content => (.ok (token, content.ttlSeconds.map (now + ·)),
      AList.insert token (content.link now) db)
  | .claimView token =>
      (.ok ((db.matching token fun link => link.Open now).map fun link =>
        (link.content.encBlob, link.content.passphraseSalt)),
        if (db.matching token fun link => link.Open now).isSome then
          Table.modify token ShareLink.claimed db else db)
  | .revokeShare token userId =>
      (.ok ((db.matching token fun link => link.Revocable userId).map fun _ => ()),
        if (db.matching token fun link => link.Revocable userId).isSome then
          Table.modify token (ShareLink.revoked now) db else db)
  | .respond _ => (.ok (), db)

/-- Whether a command can be answered so. -/
def allowed (_ : Op) (c : Cmd) (_ : ℤ) (db : Db) : Bool :=
  match c with
  | .insertShare token _ => (db.lookup token).isNone
  | _ => true

theorem does_answer {op : Op} {c : Cmd} {now : ℤ} {db : Db} (h : allowed op c now db = true) :
    c.Does now db (answer op c now db).1 (answer op c now db).2 := by
  cases c with
  | random => exact ⟨⟨_, rfl, rfl⟩, rfl⟩
  | insertShare token content => exact ⟨Option.isNone_iff_eq_none.1 h, rfl, rfl⟩
  | _ => exact ⟨rfl, rfl⟩

def backend : Service.Backend service where
  answer := answer
  allowed := allowed
  sound h := .inl (does_answer h)

/-- The body of a link that burns after one view. -/
def body : CreateShare := ⟨"AAAA".toList, 1, some 60, none⟩

def token : List Char := randomToken (List.replicate 16 0)

def opening : Requests ℕ := ⟨⟨∅, 0, []⟩, fun _ => ⟨none, none⟩⟩

def requests : List (ℕ × Op × ℤ) :=
  [(0, .create (.text "alice") body, 0), (1, .fetch token, 5), (2, .fetch token, 6)]

theorem opening_opening : Service.Opening opening := ⟨rfl, fun _ => rfl, fun _ => rfl⟩

theorem reaches_requests : ∃ w, service.system.Reaches opening w ∧
    w.shared = backend.serveAll requests opening.shared :=
  Service.Backend.reaches_serveAll (fun _ _ => ⟨rfl, rfl⟩) (by decide) (by decide +kernel)

end Trial

/-- The first fetch is answered with what was posted. -/
theorem fetched_as_posted_once : ∃ w, service.system.Reaches Trial.opening w ∧
    ∃ e ∈ w.shared.log, answered (reply e) = some (Trial.body.encBlob, none) ∧
      ∃ later f earlier token, w.shared.log = later ++ f :: earlier ∧ f.who = e.who ∧
        e.op = .fetch token ∧ view (reply f) = some token := by
  obtain ⟨w, hreach, hw⟩ := Trial.reaches_requests
  have hany : (w.shared.log.any fun e =>
      decide (answered (reply e) = some (Trial.body.encBlob, none))) = true := by
    rw [hw]
    decide +kernel
  obtain ⟨e, he, hanswer⟩ := List.any_eq_true.1 hany
  obtain ⟨later, f, earlier, token, hlog, hwho, hop, hview, -⟩ :=
    fetched_as_posted Trial.opening_opening (fun _ => rfl) hreach he (of_decide_eq_true hanswer)
  exact ⟨w, hreach, e, he, of_decide_eq_true hanswer, later, f, earlier, token, hlog, hwho, hop,
    hview⟩

/-- The second fetch finds that the view was claimed. -/
theorem missed_with_reason_again : ∃ w, service.system.Reaches Trial.opening w ∧
    ∃ later f earlier, w.shared.log = later ++ f :: earlier ∧
      miss (reply f) = some Trial.token ∧
      ((∀ c ∈ earlier, acknowledged (reply c) ≠ some Trial.token) ∨ ∃ c userId body,
        CreatedBy earlier Trial.token c userId body ∧
          ((∃ ttl ∈ body.ttlSeconds, c.time + ttl ≤ f.time) ∨
            (∃ g ∈ earlier, g.op = .revoke userId Trial.token) ∨
            body.maxViews ≤ views earlier Trial.token + lostViews earlier Trial.token)) := by
  obtain ⟨w, hreach, hw⟩ := Trial.reaches_requests
  have hany : (w.shared.log.any fun e => decide (miss (reply e) = some Trial.token)) = true := by
    rw [hw]
    decide +kernel
  obtain ⟨f, hf, hmiss⟩ := List.any_eq_true.1 hany
  obtain ⟨later, earlier, hlog⟩ := List.append_of_mem hf
  exact ⟨w, hreach, later, f, earlier, hlog, of_decide_eq_true hmiss,
    missed_with_reason Trial.opening_opening (fun _ => rfl) hreach hlog (of_decide_eq_true hmiss)⟩

end Share

end Sotto
