import Sotto.Library.Solo

/-!
# Two sessions that take turns

A schedule of two sessions is built step by step: each rule executes the next command of the session
whose turn it is, and the turn goes over where the other is to continue.
-/

namespace Sessions

variable {D Δ K ε Op Res : Type}

/-- What is left of a request, and the stage of its transaction. -/
structure Task (D Δ K ε Op Res : Type) where
  op : Op
  rest : Prog (Command.Reply (D := D) (Δ := Δ) (K := K) (ε := ε)) (Except ε Res)
  stage : Discipline.Stage Δ K

namespace Discipline

/-- A session works on a task. -/
structure Works (i : Bool) (t : Task D Δ K ε Op Res) (w : Situation Bool D Δ K ε Op Res) :
    Prop where
  running : (w.threads i).running = some (t.op, t.rest)
  own : (w.threads i).own = ⟨t.stage.changes, some t.op, t.stage.wrote⟩
  held : w.shared.held i = t.stage.locks

/-- Two sessions work, and it is the turn of `i`. -/
structure Turn (i : Bool) (db : D) (log : List (Entry D K Op)) (t t' : Task D Δ K ε Op Res)
    (w : Situation Bool D Δ K ε Op Res) : Prop where
  db : w.shared.db = db
  log : w.shared.log = log
  first : Works i t w
  second : Works (!i) t' w

variable {P : Discipline D Δ K Op} {fault : ε} {handler : Op → Session D Δ K ε Res}
  {i : Bool} {db : D} {log : List (Entry D K Op)} {op : Op} {g : Stage Δ K}
  {t t' : Task D Δ K ε Op Res} {G : List (Entry D K Op) → Prop}

variable (P fault handler) in
/-- From where two sessions are, a log can be reached. -/
def Leads (i : Bool) (db : D) (log : List (Entry D K Op)) (t t' : Task D Δ K ε Op Res)
    (G : List (Entry D K Op) → Prop) : Prop :=
  ∀ w : Situation Bool D Δ K ε Op Res, Turn i db log t t' w →
    ∃ w', (P.system fault handler).Reaches w w' ∧ G w'.shared.log

theorem other_ne (i : Bool) : (!i) ≠ i := by
  cases i <;> decide

/-- A step of the session whose turn it is leaves the other where it was. -/
theorem Turn.next {w : Situation Bool D Δ K ε Op Res} (hw : Turn i db log t t' w)
    (s : Shared Bool D K Op) {own : Own Δ Op} (t₁ : Task D Δ K ε Op Res)
    (hown : own = ⟨t₁.stage.changes, some t₁.op, t₁.stage.wrote⟩)
    (hheld : s.held i = t₁.stage.locks) (hother : s.held (!i) = w.shared.held (!i)) :
    Turn i s.db s.log t₁ t'
      ⟨s, Function.update w.threads i ⟨own, some (t₁.op, t₁.rest)⟩⟩ := by
  have hne : (!i) ≠ i := other_ne i
  refine ⟨rfl, rfl, ⟨?_, ?_, hheld⟩, ⟨?_, ?_, hother.trans hw.second.held⟩⟩
  · simp only [Function.update_self]
  · simp only [Function.update_self, hown]
  · simp only [Function.update_of_ne hne, hw.second.running]
  · simp only [Function.update_of_ne hne, hw.second.own]

/-- Two requests start where all sessions are idle. -/
theorem Settled.leads {s : D × List (Entry D K Op)} {w : Situation Bool D Δ K ε Op Res}
    (hw : Settled s w) {op op' : Op}
    (h : P.Leads fault handler false s.1 s.2 ⟨op, (handler op).run, .outside Δ K false⟩
      ⟨op', (handler op').run, .outside Δ K false⟩ G) :
    ∃ w', (P.system fault handler).Reaches w w' ∧ G w'.shared.log := by
  have hstart : ∀ (w : Situation Bool D Δ K ε Op Res) i op, (w.threads i).running = none →
      (P.system fault handler).Step w ⟨w.shared, Function.update w.threads i
        ⟨⟨(w.threads i).own.pending, some op, false⟩, some (op, (handler op).run)⟩⟩ :=
    fun w i op hidle => .start hidle rfl
  let first : Situation Bool D Δ K ε Op Res := ⟨w.shared, Function.update w.threads false
    ⟨⟨(w.threads false).own.pending, some op, false⟩, some (op, (handler op).run)⟩⟩
  let both : Situation Bool D Δ K ε Op Res := ⟨w.shared, Function.update first.threads true
    ⟨⟨(first.threads true).own.pending, some op', false⟩, some (op', (handler op').run)⟩⟩
  have hturn : Turn false s.1 s.2 ⟨op, (handler op).run, .outside Δ K false⟩
      ⟨op', (handler op').run, .outside Δ K false⟩ both := by
    refine ⟨hw.db, hw.log, ⟨?_, ?_, hw.held false⟩, ⟨?_, ?_, hw.held true⟩⟩
    · simp [both, first]
    · simp [both, first, (hw.idle false).2]
    · simp [both, first]
    · simp [both, first, (hw.idle true).2]
  obtain ⟨w', hreach, hG⟩ := h both hturn
  have hidle : (first.threads true).running = none := by
    simp [first, (hw.idle true).1]
  exact ⟨w', .head (hstart w false op (hw.idle false).1) (.head (hstart first true op' hidle) hreach),
    hG⟩

end Discipline

end Sessions
