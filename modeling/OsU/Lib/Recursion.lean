import Mathlib.Logic.Relation
import Mathlib.Order.WellFounded
import Mathlib.Tactic.Common

/-!
# Recursive procedures

A computation returns, or it makes a call and goes on with the result. A procedure is a
computation for every argument, which may call the procedure again; `eval` evaluates it
with calls that are at most `n` deep. It returns exactly when no chain of calls, each
made in the one before, is endless (`run_returns_iff`).

## What is called

The calls that a computation makes depend on the results of the calls before. `Calls` is
the set of them for given results, `Nested` the relation between a call and those in its
body, and `Executed` what is called at any depth. A computation that never returns has
executed calls too: those in front of the one it is stuck in. Hence `Nested` is about
calls that are reached, whether they return or not.

## What is carried along

What a run has cost can be read off what is carried from call to call: a computation
that changes it in calls only (`Threads`) is in order exactly when every call that is
executed is, at whatever depth (`Threads.executed_iff`). Properties of arguments are
carried down by `Keeps`, which has a clause for each node of a computation and goes
through `bind`.
-/

set_option autoImplicit false

namespace Recursion

variable {Q R A B : Type}

/-- A computation that calls with arguments in `Q` and gets results in `R`. -/
inductive Comp (Q R A : Type) where
  | ret (a : A)
  | call (q : Q) (k : R → Comp Q R A)

namespace Comp

/-- The result, given the results of the calls. -/
def run (f : Q → Option R) : Comp Q R A → Option A
  | ret a => some a
  | call q k => (f q).bind fun r => (k r).run f

def bind (c : Comp Q R A) (g : A → Comp Q R B) : Comp Q R B :=
  match c with
  | ret a => g a
  | call q k => call q fun r => (k r).bind g

theorem run_bind (f : Q → Option R) (c : Comp Q R A) (g : A → Comp Q R B) :
    (c.bind g).run f = (c.run f).bind fun a => (g a).run f := by
  induction c with
  | ret a => rfl
  | call q k ih =>
    rw [bind, run, run, Option.bind_assoc]
    exact Option.bind_congr fun r _ => ih r

/-- A call that is made, when calls have the results that `Ret` says. -/
inductive Calls (Ret : Q → R → Prop) : Comp Q R A → Q → Prop where
  | here (q : Q) (k : R → Comp Q R A) : Calls Ret (call q k) q
  | later {q q' : Q} {k : R → Comp Q R A} {r : R} (h : Ret q r) (hrest : Calls Ret (k r) q') :
      Calls Ret (call q k) q'

/-- What is done with the result calls nothing. -/
theorem Calls.of_bind_ret {Ret : Q → R → Prop} {c : Comp Q R A} {g : A → B} {q : Q}
    (h : (c.bind fun a => .ret (g a)).Calls Ret q) : c.Calls Ret q := by
  induction c with
  | ret a => cases h
  | call q' k ih =>
    cases h with
    | here => exact .here _ _
    | later hr hrest => exact .later hr (ih _ hrest)

/-- Every call meets `I`, and so does the result meet `J`, when the results of calls meet `Post`. -/
def Keeps (I : Q → Prop) (Post : Q → R → Prop) (J : A → Prop) : Comp Q R A → Prop
  | ret a => J a
  | call q k => I q ∧ ∀ r, Post q r → (k r).Keeps I Post J

section Keeps

variable {I : Q → Prop} {Post Ret : Q → R → Prop} {J : A → Prop} {J' : B → Prop}

theorem Keeps.bind {c : Comp Q R A} {g : A → Comp Q R B} (h : c.Keeps I Post J)
    (hg : ∀ a, J a → (g a).Keeps I Post J') : (c.bind g).Keeps I Post J' := by
  induction c with
  | ret a => exact hg a h
  | call q k ih => exact ⟨h.1, fun r hr => ih r (h.2 r hr)⟩

theorem Keeps.calls {c : Comp Q R A} (h : c.Keeps I Post J)
    (hret : ∀ q r, I q → Ret q r → Post q r) {q : Q} (hq : c.Calls Ret q) : I q := by
  induction hq with
  | here q k => exact h.1
  | later hr _ ih => exact ih (h.2 _ (hret _ _ h.1 hr))

theorem Keeps.result {f : Q → Option R} {c : Comp Q R A} (h : c.Keeps I Post J)
    (hf : ∀ q r, I q → f q = some r → Post q r) {a : A} (ha : c.run f = some a) : J a := by
  induction c with
  | ret b =>
    obtain rfl := Option.some.inj ha
    exact h
  | call q k ih =>
    obtain ⟨r, hr, hrest⟩ := Option.bind_eq_some_iff.mp ha
    exact ih r (h.2 r (hf q r h.1 hr)) hrest

end Keeps

end Comp

/-- A procedure, with its calls at most `n` deep. -/
def eval (body : Q → Comp Q R R) : Nat → Q → Option R
  | 0, _ => none
  | n + 1, q => (body q).run (eval body n)

/-- The procedure returns. -/
def Returns (body : Q → Comp Q R R) (q : Q) (r : R) : Prop := ∃ n, eval body n q = some r

/-- `q'` is called in the body of `q`. -/
def Nested (body : Q → Comp Q R R) (q' q : Q) : Prop := (body q).Calls (Returns body) q'

/-- From the computation, calls without end, each made in the body of the one before. -/
def IsEndless (body : Q → Comp Q R R) (c : Comp Q R A) (chain : ℕ → Q) : Prop :=
  c.Calls (Returns body) (chain 0) ∧ ∀ n, Nested body (chain (n + 1)) (chain n)

section Eval

variable {body : Q → Comp Q R R}

theorem Comp.run_mono {f g : Q → Option R} (hfg : ∀ q r, f q = some r → g q = some r)
    {c : Comp Q R A} {a : A} (h : c.run f = some a) : c.run g = some a := by
  induction c with
  | ret b => exact h
  | call q k ih =>
    obtain ⟨r, hr, hrest⟩ := Option.bind_eq_some_iff.mp h
    exact Option.bind_eq_some_iff.mpr ⟨r, hfg q r hr, ih r hrest⟩

/-- More depth does no harm. -/
theorem eval_mono {n m : Nat} (hnm : n ≤ m) {q : Q} {r : R} (h : eval body n q = some r) :
    eval body m q = some r := by
  induction n generalizing m q r with
  | zero => exact nomatch h
  | succ n ih =>
    obtain ⟨m, rfl⟩ := Nat.exists_eq_add_of_lt hnm
    exact Comp.run_mono (fun q r hq => ih (by omega) hq) h

theorem Returns.unique {q : Q} {r r' : R} (h : Returns body q r) {n : Nat}
    (h' : eval body n q = some r') : r = r' := by
  obtain ⟨m, hm⟩ := h
  have hr := eval_mono (Nat.le_max_left m n) hm
  rw [eval_mono (Nat.le_max_right m n) h'] at hr
  exact (Option.some.inj hr).symm

/-- A computation that returns has had its calls return. -/
theorem Comp.Calls.returned {c : Comp Q R A} {q : Q} (h : c.Calls (Returns body) q) {n : Nat}
    {a : A} (ha : c.run (eval body n) = some a) : ∃ r, eval body n q = some r := by
  induction h with
  | here q k =>
    obtain ⟨r, hr, -⟩ := Option.bind_eq_some_iff.mp ha
    exact ⟨r, hr⟩
  | later hret _ ih =>
    obtain ⟨r, hr, hrest⟩ := Option.bind_eq_some_iff.mp ha
    obtain rfl := hret.unique hr
    exact ih hrest

/-- A computation all of whose calls return returns. -/
theorem Comp.returns_of_calls {c : Comp Q R A}
    (h : ∀ q, c.Calls (Returns body) q → ∃ r, Returns body q r) :
    ∃ n a, c.run (eval body n) = some a := by
  induction c with
  | ret a => exact ⟨0, a, rfl⟩
  | call q k ih =>
    obtain ⟨r, n, hn⟩ := h q (.here q k)
    obtain ⟨m, a, ha⟩ := ih r fun q' hq' => h q' (.later ⟨n, hn⟩ hq')
    refine ⟨max n m, a, Option.bind_eq_some_iff.mpr ⟨r, eval_mono (Nat.le_max_left n m) hn, ?_⟩⟩
    exact Comp.run_mono (fun q r => eval_mono (Nat.le_max_right n m)) ha

/-- **A call returns** exactly when the calls nested in it are well founded. -/
theorem returns_iff_acc (q : Q) : (∃ r, Returns body q r) ↔ Acc (Nested body) q := by
  constructor
  · rintro ⟨r, n, hn⟩
    induction n generalizing q r with
    | zero => exact nomatch hn
    | succ n ih =>
      refine Acc.intro q fun q' hq' => ?_
      obtain ⟨r', hr'⟩ := hq'.returned hn
      exact ih q' r' hr'
  · intro h
    induction h with
    | intro q _ ih =>
      obtain ⟨n, r, hr⟩ := Comp.returns_of_calls ih
      exact ⟨r, n + 1, hr⟩

/-- **A computation returns** exactly when no chain of calls from it is endless. -/
theorem run_returns_iff (c : Comp Q R A) :
    (∃ n a, c.run (eval body n) = some a) ↔ ¬∃ chain, IsEndless body c chain := by
  constructor
  · rintro ⟨n, a, ha⟩ ⟨chain, hstart, hnest⟩
    obtain ⟨r, hr⟩ := hstart.returned ha
    have hacc := (returns_iff_acc (chain 0)).mp ⟨r, n, hr⟩
    exact not_acc_iff_exists_descending_chain.mpr ⟨chain, rfl, hnest⟩ hacc
  · intro h
    refine Comp.returns_of_calls fun q hq => (returns_iff_acc q).mpr ?_
    by_contra hacc
    obtain ⟨chain, rfl, hnest⟩ := not_acc_iff_exists_descending_chain.mp hacc
    exact h ⟨chain, hq, hnest⟩

/-- **Calls keep** what every body keeps. -/
theorem eval_keeps {I : Q → Prop} {Post : Q → R → Prop}
    (hbody : ∀ q, I q → (body q).Keeps I Post (Post q)) (n : Nat) {q : Q} {r : R} (hq : I q)
    (h : eval body n q = some r) : Post q r := by
  induction n generalizing q r with
  | zero => exact nomatch h
  | succ n ih => exact (hbody q hq).result (fun _ _ => ih) h

/-- What holds of a call holds of those in its body. -/
theorem Nested.keeps {I : Q → Prop} {Post : Q → R → Prop}
    (hbody : ∀ q, I q → (body q).Keeps I Post (Post q)) {q q' : Q} (h : Nested body q' q)
    (hq : I q) : I q' :=
  (hbody q hq).calls (fun _ _ hq ⟨n, hn⟩ => eval_keeps hbody n hq hn) h

theorem IsEndless.keeps {I : Q → Prop} {Post : Q → R → Prop} {J : A → Prop}
    (hbody : ∀ q, I q → (body q).Keeps I Post (Post q)) {c : Comp Q R A} (hc : c.Keeps I Post J)
    {chain : ℕ → Q} (h : IsEndless body c chain) (n : Nat) : I (chain n) := by
  induction n with
  | zero => exact hc.calls (fun _ _ hq ⟨m, hm⟩ => eval_keeps hbody m hq hm) h.1
  | succ n ih => exact (h.2 n).keeps hbody ih

/-- In a chain every call is below those before it. -/
theorem IsEndless.below {c : Comp Q R A} {chain : ℕ → Q} (h : IsEndless body c chain) {i j : ℕ}
    (hij : i < j) : Relation.TransGen (Nested body) (chain j) (chain i) := by
  induction hij with
  | refl => exact .single (h.2 i)
  | step _ ih => exact .head (h.2 _) ih

end Eval

/-! ## What is carried along -/

/-- `q` is called by the computation, or in the body of such a call, at any depth. -/
def Executed (body : Q → Comp Q R R) (c : Comp Q R A) (q : Q) : Prop :=
  ∃ q₀, c.Calls (Returns body) q₀ ∧ Relation.ReflTransGen (Nested body) q q₀

theorem IsEndless.executed {body : Q → Comp Q R R} {c : Comp Q R A} {chain : ℕ → Q}
    (h : IsEndless body c chain) (n : ℕ) : Executed body c (chain n) := by
  refine ⟨chain 0, h.1, ?_⟩
  rcases n.eq_zero_or_pos with rfl | hn
  · exact .refl
  · exact (h.below hn).to_reflTransGen

/-- A computation that returns has had everything return that was executed for it. -/
theorem Executed.returned {body : Q → Comp Q R R} {c : Comp Q R A} {q : Q}
    (h : Executed body c q) {n : Nat} {a : A} (ha : c.run (eval body n) = some a) :
    ∃ r, Returns body q r := by
  obtain ⟨q₀, hq₀, hpath⟩ := h
  obtain ⟨r₀, hr₀⟩ := hq₀.returned ha
  induction hpath using Relation.ReflTransGen.head_induction_on with
  | refl => exact ⟨r₀, n, hr₀⟩
  | head hnest _ ih =>
    obtain ⟨r, m, hm⟩ := ih
    cases m with
    | zero => cases hm
    | succ m =>
      obtain ⟨r', hr'⟩ := hnest.returned hm
      exact ⟨r', m, hr'⟩

/-- Stretches of something that grows: `fine` holds of an empty stretch, and of a stretch in two
parts when it holds of both. -/
structure Stretches {L : Type} (le fine : L → L → Prop) : Prop where
  refl : ∀ x, le x x ∧ fine x x
  trans : ∀ {x y z}, le x y → le y z → le x z ∧ (fine x z ↔ fine x y ∧ fine y z)

section Threads

variable {L : Type} {pre : Q → L} {post : R → L} {last : A → L}

/-- What is carried along, `x` at the start, is handed to every call and taken back from it. -/
def Comp.Threads (pre : Q → L) (post : R → L) (last : A → L) : Comp Q R A → L → Prop
  | ret a, x => last a = x
  | call q k, x => pre q = x ∧ ∀ r, (k r).Threads pre post last (post r)

theorem Comp.Threads.bind {mid : B → L} {c : Comp Q R B} {g : B → Comp Q R A} {x : L}
    (h : c.Threads pre post mid x) (hg : ∀ b, (g b).Threads pre post last (mid b)) :
    (c.bind g).Threads pre post last x := by
  induction c generalizing x with
  | ret b => exact (h : mid b = x) ▸ hg b
  | call q k ih => exact ⟨h.1, fun r => ih r (h.2 r)⟩

variable {le fine : L → L → Prop} {body : Q → Comp Q R R}

/-- A computation is in order when the calls that it makes itself are. -/
theorem Comp.Threads.calls_iff (hs : Stretches le fine) {c : Comp Q R A} {x : L}
    (h : c.Threads pre post last x) {n : Nat} {a : A}
    (hcall : ∀ q r, eval body n q = some r → le (pre q) (post r))
    (ha : c.run (eval body n) = some a) :
    le x (last a) ∧ (fine x (last a) ↔
      ∀ q r, c.Calls (Returns body) q → Returns body q r → fine (pre q) (post r)) := by
  induction c generalizing x with
  | ret b =>
    obtain rfl : b = a := Option.some.inj ha
    obtain rfl : last b = x := h
    exact ⟨(hs.refl _).1, iff_of_true (hs.refl _).2 fun q r hq => by cases hq⟩
  | call q k ih =>
    obtain ⟨r, hr, hrest⟩ := Option.bind_eq_some_iff.mp ha
    obtain ⟨rfl, hk⟩ := h
    obtain ⟨hle, hfine⟩ := ih r (hk r) hrest
    -- The stretch is that of the first call and that of the rest.
    obtain ⟨hall, hboth⟩ := hs.trans (hcall q r hr) hle
    refine ⟨hall, hboth.trans ⟨?_, fun h => ⟨h q r (.here q k) ⟨n, hr⟩, hfine.mpr ?_⟩⟩⟩
    · rintro ⟨hfirst, hlater⟩ q' r' hq' hr'
      cases hq' with
      | here =>
        obtain rfl := hr'.unique hr
        exact hfirst
      | later hret hq' =>
        obtain rfl := hret.unique hr
        exact hfine.mp hlater q' r' hq' hr'
    · exact fun q' r' hq' hr' => h q' r' (.later ⟨n, hr⟩ hq') hr'

/-- What a procedure does itself: it comes to its result without a call, and is in order when its
argument is `ok`; or it leaves everything to its calls. -/
def Accounts (body : Q → Comp Q R R) (pre : Q → L) (post : R → L) (le fine : L → L → Prop)
    (ok : Q → Prop) : Prop :=
  ∀ q, (∃ r, body q = .ret r ∧ le (pre q) (post r) ∧ (fine (pre q) (post r) ↔ ok q)) ∨
    (ok q ∧ (body q).Threads pre post post (pre q))

/-- **A call is in order** when its argument and those of all calls below it are. -/
theorem Accounts.eval (hs : Stretches le fine) {ok : Q → Prop}
    (hb : Accounts body pre post le fine ok) (n : Nat) {q : Q} {r : R}
    (h : eval body n q = some r) :
    le (pre q) (post r) ∧ (fine (pre q) (post r) ↔
      ∀ q', Relation.ReflTransGen (Nested body) q' q → ok q') := by
  induction n generalizing q r with
  | zero => cases h
  | succ n ih =>
    -- A request that answers without a call is a stretch of its own. Of any other the
    -- stretch is that of its calls.
    rcases hb q with ⟨r', hbody, hle, hfine⟩ | ⟨hok, hthreads⟩
    · obtain rfl : r' = r := by
        rw [Recursion.eval, hbody] at h
        exact Option.some.inj h
      refine ⟨hle, hfine.trans ⟨fun hok q' hq' => ?_, fun h => h q .refl⟩⟩
      rcases hq'.cases_tail with rfl | ⟨q₁, -, hq₁⟩
      · exact hok
      · rw [Nested, hbody] at hq₁
        cases hq₁
    · obtain ⟨hle, hfine⟩ := hthreads.calls_iff hs (fun q r hq => (ih hq).1) h
      refine ⟨hle, hfine.trans ⟨fun hall q' hq' => ?_, fun hall q₁ r₁ hq₁ hr₁ => ?_⟩⟩
      · rcases hq'.cases_tail with rfl | ⟨q₁, hpath, hq₁⟩
        · exact hok
        · obtain ⟨r₁, hr₁⟩ := hq₁.returned h
          exact (ih hr₁).2.mp (hall q₁ r₁ hq₁ ⟨n, hr₁⟩) q' hpath
      · obtain ⟨r₂, hr₂⟩ := hq₁.returned h
        obtain rfl := hr₁.unique hr₂
        exact (ih hr₂).2.mpr fun q' hq' => hall q' (hq'.tail hq₁)

/-- **A run is in order** exactly when the argument of every call that is executed is `ok`. -/
theorem Comp.Threads.executed_iff (hs : Stretches le fine) {ok : Q → Prop}
    (hb : Accounts body pre post le fine ok) {c : Comp Q R A} {x : L}
    (h : c.Threads pre post last x) {n : Nat} {a : A} (ha : c.run (Recursion.eval body n) = some a) :
    fine x (last a) ↔ ∀ q, Executed body c q → ok q := by
  refine (h.calls_iff hs (fun q r hq => (hb.eval hs n hq).1) ha).2.trans ⟨?_, ?_⟩
  · rintro hall q ⟨q₀, hq₀, hpath⟩
    obtain ⟨r₀, hr₀⟩ := hq₀.returned ha
    exact (hb.eval hs n hr₀).2.mp (hall q₀ r₀ hq₀ ⟨n, hr₀⟩) q hpath
  · intro hall q₀ r₀ hq₀ hr₀
    obtain ⟨r₁, hr₁⟩ := hq₀.returned ha
    obtain rfl := hr₀.unique hr₁
    exact (hb.eval hs n hr₁).2.mpr fun q hq => hall q ⟨q₀, hq₀, hq⟩

end Threads

end Recursion
