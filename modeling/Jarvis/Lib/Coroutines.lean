/-
  Jarvis.Lib.Coroutines — programs of an event loop. A program is known up to its next await,
  and every await is a transaction on a state that others share or a question to the outside.

  `transaction check update next`: at one instant the state `s` becomes `update s` and the
  program goes on as `next s`; `check` names what the transaction relies on. `ask q next`: the
  program goes on with whatever `q` is answered. Anything may happen to the state between two
  awaits.

  `Meets` is the rule of such programs: they keep an invariant of the shared state, which is
  all they may rely on when they go on, return what `post` allows and raise what `err` allows,
  as long as what each transaction relies on `holds`. It needs no state of its own, so it is
  proved along the program's text (`bind`, `catch`, `andFinally`, `loop`, `alongside`,
  `beside`, `both`), and each step of the program keeps it.
-/
import Mathlib.Tactic.Common

namespace Jarvis

inductive Coroutine (σ κ Q : Type) (R : Q → Type) (ε α : Type) where
  | done (v : α)
  | raised (e : ε)
  /-- A loop that is not left in the rounds it is given. -/
  | hanging
  | transaction (check : κ) (update : σ → σ) (next : σ → Coroutine σ κ Q R ε α)
  | ask (q : Q) (next : R q → Coroutine σ κ Q R ε α)

namespace Coroutine

variable {σ κ Q : Type} {R : Q → Type} {ε α β : Type}

/-! ## One after another -/

protected def bind : Coroutine σ κ Q R ε α → (α → Coroutine σ κ Q R ε β) → Coroutine σ κ Q R ε β
  | .done v, k => k v
  | .raised e, _ => .raised e
  | .hanging, _ => .hanging
  | .transaction c u n, k => .transaction c u fun s => (n s).bind k
  | .ask q n, k => .ask q fun r => (n r).bind k

instance : Monad (Coroutine σ κ Q R ε) where
  pure := .done
  bind := Coroutine.bind

/-- `try: … except`: `h` has what the program raises. -/
def catch_ : Coroutine σ κ Q R ε α → (ε → Coroutine σ κ Q R ε α) → Coroutine σ κ Q R ε α
  | .done v, _ => .done v
  | .raised e, h => h e
  | .hanging, _ => .hanging
  | .transaction c u n, h => .transaction c u fun s => (n s).catch_ h
  | .ask q n, h => .ask q fun r => (n r).catch_ h

/-- `try: … finally`: what `f` raises replaces what the program returns or raises. -/
def andFinally : Coroutine σ κ Q R ε α → Coroutine σ κ Q R ε Unit → Coroutine σ κ Q R ε α
  | .done v, f => f.bind fun _ => .done v
  | .raised e, f => f.bind fun _ => .raised e
  | .hanging, _ => .hanging
  | .transaction c u n, f => .transaction c u fun s => (n s).andFinally f
  | .ask q n, f => .ask q fun r => (n r).andFinally f

/-- `while True:` over a body that says when to leave. -/
def loop : Nat → Coroutine σ κ Q R ε (Option α) → Coroutine σ κ Q R ε α
  | 0, _ => .hanging
  | n + 1, body => body.bind fun
    | some v => .done v
    | none => loop n body

def times (p : Coroutine σ κ Q R ε Unit) : Nat → Coroutine σ κ Q R ε Unit
  | 0 => .done ()
  | n + 1 => p.bind fun _ => times p n

/-! ## Side by side -/

section Beside

variable (q : Q)

/-- `extra` runs as often as `q` is answered before each await of the program, and may be under
    way when the program ends. What it raises takes the program's place. -/
def alongside (count : R q → Nat) (extra : Coroutine σ κ Q R ε Unit) : Coroutine σ κ Q R ε α → Coroutine σ κ Q R ε α
  | .done v => .ask q fun r => (times extra (min 1 (count r))).bind fun _ => .done v
  | .raised e => .ask q fun r => (times extra (min 1 (count r))).bind fun _ => .raised e
  | .hanging => .hanging
  | .transaction c u n => .ask q fun r => (times extra (count r)).bind fun _ =>
      .transaction c u fun s => alongside count extra (n s)
  | .ask q' n => .ask q fun r => (times extra (count r)).bind fun _ => .ask q' fun r' => alongside count extra (n r')

/-- A task that repeats `beat` until it raises, which is then what is kept of it. -/
def beats (beat : Coroutine σ κ Q R ε Unit) : Nat → Option ε → Coroutine σ κ Q R ε (Option ε)
  | 0, failed => .done failed
  | _, some e => .done (some e)
  | n + 1, none => ((beat.bind fun _ => .done none).catch_ fun e => .done (some e)).bind (beats beat n)

/-- The program beside such a task, with what the task has raised when the program returns. -/
def beside (count : R q → Nat) (beat : Coroutine σ κ Q R ε Unit) :
    Coroutine σ κ Q R ε α → Option ε → Coroutine σ κ Q R ε (α × Option ε)
  | .done v, failed => .ask q fun r => (beats beat (count r) failed).bind fun failed => .done (v, failed)
  | .raised e, _ => .raised e
  | .hanging, _ => .hanging
  | .transaction c u n, failed => .ask q fun r => (beats beat (count r) failed).bind fun failed =>
      .transaction c u fun s => beside count beat (n s) failed
  | .ask q' n, failed => .ask q fun r => (beats beat (count r) failed).bind fun failed =>
      .ask q' fun r' => beside count beat (n r') failed

/-- The awaits of `p`, whose first one `left` takes, between those of the other program. -/
def weave (turn : R q → Bool) (p : Coroutine σ κ Q R ε Unit)
    (left : Coroutine σ κ Q R ε Unit → Coroutine σ κ Q R ε Unit) : Coroutine σ κ Q R ε Unit → Coroutine σ κ Q R ε Unit
  | .done _ => p
  | .raised e => .raised e
  | .hanging => left .hanging
  | .transaction c u n => .ask q fun r =>
      if turn r then left (.transaction c u n) else .transaction c u fun s => weave turn p left (n s)
  | .ask q' n => .ask q fun r => if turn r then left (.ask q' n) else .ask q' fun r' => weave turn p left (n r')

/-- Two programs of one group: `q` says which goes on, and the first to raise ends both. -/
def both (turn : R q → Bool) : Coroutine σ κ Q R ε Unit → Coroutine σ κ Q R ε Unit → Coroutine σ κ Q R ε Unit
  | .done _ => fun p' => p'
  | .raised e => fun _ => .raised e
  | .hanging => fun p' => p'.bind fun _ => .hanging
  | .transaction c u n => weave q turn (.transaction c u n) fun p' => .transaction c u fun s => both turn (n s) p'
  | .ask q' n => weave q turn (.ask q' n) fun p' => .ask q' fun r => both turn (n r) p'

/-- All programs of a group. -/
def all (turn : R q → Bool) : List (Coroutine σ κ Q R ε Unit) → Coroutine σ κ Q R ε Unit
  | [] => .done ()
  | p :: ps => both q turn p (all turn ps)

end Beside

/-! ## What a program keeps and raises -/

section Meets

variable (Inv : σ → Prop) (holds : κ → σ → Prop)

def Meets (post : α → Prop) (err : ε → Prop) : Coroutine σ κ Q R ε α → Prop
  | .done v => post v
  | .raised e => err e
  | .hanging => True
  | .transaction c u n => ∀ s, Inv s → holds c s → Inv (u s) ∧ (n s).Meets post err
  | .ask _ n => ∀ r, (n r).Meets post err

variable {Inv holds} {p : Coroutine σ κ Q R ε α} {post post' : α → Prop} {postβ : β → Prop} {err err' : ε → Prop}

theorem Meets.mono (h : p.Meets Inv holds post err) (hpost : ∀ v, post v → post' v) (herr : ∀ e, err e → err' e) :
    p.Meets Inv holds post' err' := by
  induction p with
  | done v => exact hpost v h
  | raised e => exact herr e h
  | hanging => trivial
  | transaction c u n ih => exact fun s hi hc => ⟨(h s hi hc).1, ih s (h s hi hc).2⟩
  | ask q n ih => exact fun r => ih r (h r)

theorem Meets.bind {k : α → Coroutine σ κ Q R ε β} (h : p.Meets Inv holds post err)
    (hk : ∀ v, post v → (k v).Meets Inv holds postβ err) : (p.bind k).Meets Inv holds postβ err := by
  induction p with
  | done v => exact hk v h
  | raised e => exact h
  | hanging => trivial
  | transaction c u n ih => exact fun s hi hc => ⟨(h s hi hc).1, ih s (h s hi hc).2⟩
  | ask q n ih => exact fun r => ih r (h r)

theorem Meets.catch_ {k : ε → Coroutine σ κ Q R ε α} (h : p.Meets Inv holds post err)
    (hk : ∀ e, err e → (k e).Meets Inv holds post err') : (p.catch_ k).Meets Inv holds post err' := by
  induction p with
  | done v => exact h
  | raised e => exact hk e h
  | hanging => trivial
  | transaction c u n ih => exact fun s hi hc => ⟨(h s hi hc).1, ih s (h s hi hc).2⟩
  | ask q n ih => exact fun r => ih r (h r)

theorem Meets.andFinally {f : Coroutine σ κ Q R ε Unit} (h : p.Meets Inv holds post err)
    (hf : f.Meets Inv holds (fun _ => True) err) : (p.andFinally f).Meets Inv holds post err := by
  induction p with
  | done v => exact hf.bind fun _ _ => h
  | raised e => exact hf.bind fun _ _ => h
  | hanging => trivial
  | transaction c u n ih => exact fun s hi hc => ⟨(h s hi hc).1, ih s (h s hi hc).2⟩
  | ask q n ih => exact fun r => ih r (h r)

theorem Meets.loop {body : Coroutine σ κ Q R ε (Option α)}
    (h : body.Meets Inv holds (fun v => ∀ w, v = some w → post w) err) (n : Nat) :
    (Coroutine.loop n body).Meets Inv holds post err := by
  induction n with
  | zero => trivial
  | succ n ih =>
    refine h.bind fun v hv => ?_
    cases v with
    | none => exact ih
    | some w => exact hv w rfl

theorem Meets.times {p : Coroutine σ κ Q R ε Unit} (h : p.Meets Inv holds (fun _ => True) err) (n : Nat) :
    (p.times n).Meets Inv holds (fun _ => True) err := by
  induction n with
  | zero => trivial
  | succ n ih => exact h.bind fun _ _ => ih

theorem Meets.alongside {q : Q} {count : R q → Nat} {extra : Coroutine σ κ Q R ε Unit} (h : p.Meets Inv holds post err)
    (hx : extra.Meets Inv holds (fun _ => True) err) : (alongside q count extra p).Meets Inv holds post err := by
  induction p with
  | done v => exact fun r => (hx.times _).bind fun _ _ => h
  | raised e => exact fun r => (hx.times _).bind fun _ _ => h
  | hanging => trivial
  | transaction c u n ih =>
    exact fun r => (hx.times _).bind fun _ _ => fun s hi hc => ⟨(h s hi hc).1, ih s (h s hi hc).2⟩
  | ask q' n ih => exact fun r => (hx.times _).bind fun _ _ => fun r' => ih r' (h r')

/-- What a background task keeps is what it may raise. -/
theorem Meets.beats {beat : Coroutine σ κ Q R ε Unit} (h : beat.Meets Inv holds (fun _ => True) err) (n : Nat) :
    ∀ failed, (∀ e, failed = some e → err e) →
      (beats beat n failed).Meets Inv holds (fun failed => ∀ e, failed = some e → err e) err' := by
  induction n with
  | zero => exact fun failed hf => by cases failed <;> exact hf
  | succ n ih =>
    intro failed hf
    cases failed with
    | some e => exact hf
    | none =>
      have hbeat : (beat.bind fun _ => Coroutine.done none).Meets Inv holds
          (fun failed : Option ε => ∀ e, failed = some e → err e) err := h.bind fun _ _ e he => by cases he
      refine (hbeat.catch_ fun e he => ?_).bind ih
      show ∀ e', some e = some e' → err e'
      intro e' he'
      cases he'
      exact he

theorem Meets.beside {q : Q} {count : R q → Nat} {beat : Coroutine σ κ Q R ε Unit} (h : p.Meets Inv holds post err)
    (hb : beat.Meets Inv holds (fun _ => True) err') :
    ∀ failed, (∀ e, failed = some e → err' e) →
      (beside q count beat p failed).Meets Inv holds (fun v => post v.1 ∧ ∀ e, v.2 = some e → err' e) err := by
  induction p with
  | done v => exact fun failed hf r => (hb.beats _ failed hf).bind fun _ hf' => ⟨h, hf'⟩
  | raised e => exact fun _ _ => h
  | hanging => exact fun _ _ => trivial
  | transaction c u n ih =>
    exact fun failed hf r => (hb.beats _ failed hf).bind fun failed' hf' =>
      fun s hi hc => ⟨(h s hi hc).1, ih s (h s hi hc).2 failed' hf'⟩
  | ask q' n ih =>
    exact fun failed hf r => (hb.beats _ failed hf).bind fun failed' hf' => fun r' => ih r' (h r') failed' hf'

variable {q : Q} {turn : R q → Bool} {l r : Coroutine σ κ Q R ε Unit}

theorem Meets.weave {left : Coroutine σ κ Q R ε Unit → Coroutine σ κ Q R ε Unit}
    (hl : l.Meets Inv holds (fun _ => True) err)
    (hleft : ∀ p, p.Meets Inv holds (fun _ => True) err → (left p).Meets Inv holds (fun _ => True) err)
    (hr : r.Meets Inv holds (fun _ => True) err) : (Coroutine.weave q turn l left r).Meets Inv holds (fun _ => True) err := by
  induction r with
  | done v => exact hl
  | raised e => exact hr
  | hanging => exact hleft _ trivial
  | transaction c u n ih =>
    intro a
    show (if turn a then _ else _ : Coroutine σ κ Q R ε Unit).Meets Inv holds _ err
    split
    · exact hleft _ hr
    · exact fun s hi hc => ⟨(hr s hi hc).1, ih s (hr s hi hc).2⟩
  | ask q' n ih =>
    intro a
    show (if turn a then _ else _ : Coroutine σ κ Q R ε Unit).Meets Inv holds _ err
    split
    · exact hleft _ hr
    · exact fun r' => ih r' (hr r')

theorem Meets.both (hl : l.Meets Inv holds (fun _ => True) err) :
    ∀ {r : Coroutine σ κ Q R ε Unit}, r.Meets Inv holds (fun _ => True) err →
      (Coroutine.both q turn l r).Meets Inv holds (fun _ => True) err := by
  induction l with
  | done v => exact fun hr => hr
  | raised e => exact fun _ => hl
  | hanging => exact fun hr => hr.bind fun _ _ => trivial
  | transaction c u n ih =>
    exact fun hr => Meets.weave hl (fun p hp s hi hc => ⟨(hl s hi hc).1, ih s (hl s hi hc).2 hp⟩) hr
  | ask q' n ih => exact fun hr => Meets.weave hl (fun p hp r' => ih r' (hl r') hp) hr

theorem Meets.all : ∀ {ps : List (Coroutine σ κ Q R ε Unit)}, (∀ p ∈ ps, p.Meets Inv holds (fun _ => True) err) →
    (Coroutine.all q turn ps).Meets Inv holds (fun _ => True) err
  | [], _ => trivial
  | _ :: _, h => Meets.both (h _ (.head _)) (Meets.all fun p hp => h p (.tail _ hp))

end Meets

end Coroutine

end Jarvis
