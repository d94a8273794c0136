import OsU.Proof.Tasks

/-!
# The call graph of the stored lines

The table of the functions only grows: a function stays where it is with the name it
has, and its lines stay in front of those that are added (`Grows`). A request that is
made below a call is a stored line of the function that is called, so a path of requests
is a path of the call graph (`below_path`), in the table as it is in the end.

There are 16 functions at most, so calls without end come to one that is being executed
(`endless_reenters`), and such a function is on a cycle of the graph (`Reenters.cycle`).

The graph is on the numbers of the functions and not on their names, since a name is
looked up from the first function on and two functions may have one name. An edge is a
stored line that is read as a call, whether or not it is ever executed, so the graph can
be read off the table. The converse of the last statement fails: a cycle may be there
and never be gone round, because of an `if`.
-/

set_option autoImplicit false

namespace OsU

open CString Recursion Relation

/-! ## The stored lines -/

section Kept

variable {P : Cospy → Prop}

theorem linesTask_keeps (i : Nat) (js : List Nat) {s : Cospy} (h : P s) :
    (linesTask i js s).Keeps (fun q => P q.state) (fun _ r => P r.2) P := by
  induction js generalizing s with
  | nil => exact h
  | cons j js ih =>
    rw [linesTask]
    split
    · exact h
    · exact ⟨h, fun r hr => ih hr⟩

theorem bodyTask_keeps (body : List (List UInt8)) {s : Cospy} (h : P s) :
    (bodyTask body s).Keeps (fun q => P q.state) (fun _ r => P r.2) P := by
  induction body generalizing s with
  | nil => exact h
  | cons line body ih => exact ⟨h, fun r hr => ih hr⟩

theorem iterateTask_keeps (body : List (List UInt8)) (k : Nat) {s : Cospy} (h : P s) :
    (iterateTask (bodyTask body) k s).Keeps (fun q => P q.state) (fun _ r => P r.2) P := by
  induction k generalizing s with
  | zero => exact h
  | succ k ih =>
    refine ⟨h, fun r hr => ?_⟩
    dsimp only
    split
    · exact hr
    · exact (bodyTask_keeps body hr).bind fun t ht => ih ht

variable (hk : Keeps P fun _ => True)

include hk

theorem requestTask_keeps (q : Request) (h : P q.state) :
    (requestTask q).Keeps (fun q => P q.state) (fun _ r => P r.2) fun r => P r.2 := by
  obtain ⟨line, s⟩ | s := q
  · rw [requestTask]
    unfold stmtTask
    split
    · rename_i r hr
      have hno : ∀ line s, True → P s → Keeps.Leads P (noCalls line s) := by
        intro line s _ _ r hr
        cases hr
      exact hk.executeOver hno trivial h r hr
    · exact (linesTask_keeps _ _ (hk.ev h _)).bind fun s hs => hs
  · exact hk.ev h _

theorem fileTask_keeps (lines : List (List UInt8)) {d : Driver} (h : P d.cospy) :
    (fileTask lines d).Keeps (fun q => P q.state) (fun _ r => P r.2) fun d => P d.cospy := by
  induction lines generalizing d with
  | nil => exact h
  | cons line lines ih =>
    rw [fileTask]
    refine Comp.Keeps.bind (J := fun d => P d.cospy) ?_ fun d hd => ih hd
    unfold fileLineTask
    dsimp only
    split
    · rename_i hloop
      split
      · unfold endWhileTask
        dsimp only
        split
        · exact (iterateTask_keeps d.whileBody 1000 (hk.depth h hloop _)).bind fun t ht => ht
        · exact hk.depth h hloop _
      · change P (collect _ d).cospy
        unfold collect
        dsimp only
        split
        · exact hk.depth h hloop _
        · exact h
    · exact ⟨h, fun r hr => hr⟩

theorem scriptTask_keeps (filename : List UInt8) (content : Option (List UInt8)) {s : Cospy}
    (h : P (cospyInit s)) : (scriptTask filename content s).Keeps (fun q => P q.state)
      (fun _ r => P r.2) fun _ => True := by
  unfold scriptTask
  split
  · trivial
  · cases content with
    | none => trivial
    | some content =>
      exact (fileTask_keeps hk (readLines 64 content) (d := ⟨cospyInit s, []⟩) h).bind
        fun _ _ => trivial

end Kept

/-- `functions[]` has room for 16. -/
theorem atMost16 : Keeps (fun s => s.funcs.length ≤ 16) fun _ => True where
  flow h _ _ _ := h
  defineLine _ h _ := by
    unfold defineLine
    split
    · exact h
    · split
      · rw [List.length_modify]
        exact h
      · exact h
  define h _ p := by
    unfold define
    split
    · exact h
    · rw [List.length_append, List.length_singleton]
      omega
  while_ _ _ h := h
  lines _ _ _ _ _ := trivial
  depth h _ _ := h
  stored _ := trivial

/-- Functions stay where they are, with the names they have; lines are put behind those there are. -/
def Grows (F G : List Func) : Prop :=
  ∀ (i : Nat) (f : Func), F[i]? = some f →
    ∃ g, G[i]? = some g ∧ g.name = f.name ∧ f.lines <+: g.lines

theorem Grows.refl (F : List Func) : Grows F F := fun _ f hf => ⟨f, hf, rfl, List.prefix_rfl⟩

theorem Grows.trans {F G H : List Func} (h : Grows F G) (h' : Grows G H) : Grows F H := by
  intro i f hf
  obtain ⟨g, hg, hname, hlines⟩ := h i f hf
  obtain ⟨k, hk, hname', hlines'⟩ := h' i g hg
  exact ⟨k, hk, hname'.trans hname, hlines.trans hlines'⟩

/-- The table of the functions only grows. -/
theorem growsFrom (F : List Func) : Keeps (fun s => Grows F s.funcs) fun _ => True where
  flow h _ _ _ := h
  defineLine := by
    intro line s _ h _
    -- A line goes to the end of the body that is being defined, and every other
    -- function keeps its own.
    refine h.trans ?_
    unfold defineLine
    split
    · exact .refl _
    · split
      · intro i f hf
        dsimp only
        rw [List.getElem?_modify, hf]
        refine ⟨_, rfl, ?_⟩
        split
        · dsimp only
          split
          · exact ⟨rfl, List.prefix_append _ _⟩
          · exact ⟨rfl, List.prefix_rfl⟩
        · exact ⟨rfl, List.prefix_rfl⟩
      · exact .refl _
  define := by
    intro s h _ p
    refine h.trans ?_
    unfold define
    split
    · exact .refl _
    · intro i f hf
      exact ⟨f, (List.getElem?_append_left (List.getElem?_eq_some_iff.mp hf).1).trans hf, rfl,
        List.prefix_rfl⟩
  while_ _ _ h := h
  lines _ _ _ _ _ := trivial
  depth h _ _ := h
  stored _ := trivial

/-- A line that calls a function calls the same one when the table has grown. -/
theorem callee_mono {t : List UInt8} {F G : List Func} (h : Grows F G) {k : Nat}
    (hk : callee t F = some k) : callee t G = some k := by
  unfold callee at hk ⊢
  dsimp only at hk ⊢
  split at hk
  · rename_i hcall
    rw [if_pos hcall]
    obtain ⟨hlt, hp, hbefore⟩ := List.findIdx?_eq_some_iff_getElem.mp hk
    have hname : ∀ j (hj : j < F.length), ∃ hj' : j < G.length, G[j].name = F[j].name := by
      intro j hj
      obtain ⟨g, hg, hname, -⟩ := h j F[j] (List.getElem?_eq_getElem hj)
      obtain ⟨hj', rfl⟩ := List.getElem?_eq_some_iff.mp hg
      exact ⟨hj', hname⟩
    obtain ⟨hlt', hk'⟩ := hname k hlt
    refine List.findIdx?_eq_some_iff_getElem.mpr ⟨hlt', by rw [hk']; exact hp, fun j hj => ?_⟩
    obtain ⟨hj', heq⟩ := hname j (hj.trans hlt)
    rw [heq]
    exact hbefore j hj
  · cases hk

/-- The call graph: a stored line of function `i` is read as a call of function `k`.
That a line is read as a call is decided by its text and the names in the table. -/
def CallEdge (funcs : List Func) (i k : Nat) : Prop :=
  ∃ f, funcs[i]? = some f ∧ ∃ line ∈ f.lines, callee (skipWhitespace line) funcs = some k

theorem CallEdge.mono {F G : List Func} (h : Grows F G) {i k : Nat} (he : CallEdge F i k) :
    CallEdge G i k := by
  obtain ⟨f, hf, line, hline, hk⟩ := he
  obtain ⟨g, hg, -, hlines⟩ := h i f hf
  exact ⟨g, hg, line, hlines.subset hline, callee_mono h hk⟩

/-! ## Calls of functions -/

/-- The function whose lines are executed for a request, if it is a call of one that has lines. -/
def Request.enters : Request → Option Nat
  | .statement line s =>
    if (executeOver noCalls line s).isNone then callee (skipWhitespace line) s.funcs else none
  | .condition _ => none

/-- The request is a call of a function that is being executed. -/
def Reenters (q : Request) : Prop :=
  ∃ i q', q.enters = some i ∧ q'.enters = some i ∧ TransGen (Nested requestTask) q q'

theorem linesTask_calls {Ret : Request → Int × Cospy → Prop} {i : Nat} {js : List Nat} {s : Cospy}
    {q : Request} (h : (linesTask i js s).Calls Ret q) :
    ∃ line t f, q = .statement line t ∧ t.funcs[i]? = some f ∧ line ∈ f.lines := by
  induction js generalizing s with
  | nil => cases h
  | cons j js ih =>
    rw [linesTask] at h
    split at h
    · cases h
    · rename_i line hline
      obtain ⟨f, hf, hj⟩ := Option.bind_eq_some_iff.mp hline
      cases h with
      | here => exact ⟨line, s, f, rfl, hf, List.mem_of_getElem? hj⟩
      | later _ hrest => exact ih hrest

/-- **A request below another** is a stored line of the function that the other one calls. -/
theorem nested_edge {q q' : Request} (h : Nested requestTask q' q) :
    ∃ i, q.enters = some i ∧ Grows q.state.funcs q'.state.funcs ∧
      ∀ k, q'.enters = some k → CallEdge q'.state.funcs i k := by
  have hgrows : Grows q.state.funcs q'.state.funcs :=
    h.keeps (requestTask_keeps (growsFrom q.state.funcs)) (.refl _)
  obtain ⟨line, s⟩ | s := q
  · rw [Nested, requestTask] at h
    unfold stmtTask at h
    cases hno : executeOver noCalls line s with
    | some r =>
      rw [hno] at h
      cases h
    | none =>
      obtain ⟨r, hr⟩ | ⟨i, hi, -⟩ := executeOver_callee line s
      · cases hno.symm.trans (hr noCalls)
      · rw [hno, hi] at h
        obtain ⟨line', t, f, rfl, hf, hline⟩ := linesTask_calls h.of_bind_ret
        refine ⟨i, by rw [Request.enters, hno]; exact hi, hgrows, fun k hk => ⟨f, hf, line', hline, ?_⟩⟩
        rw [Request.enters] at hk
        split at hk
        · exact hk
        · cases hk
  · cases h

/-- Along the calls, a path of the call graph. -/
theorem below_path {q q' : Request} (h : TransGen (Nested requestTask) q' q) :
    ∃ i, q.enters = some i ∧
      ∀ k, q'.enters = some k → TransGen (CallEdge q'.state.funcs) i k := by
  suffices hpath : ∃ i, q.enters = some i ∧ Grows q.state.funcs q'.state.funcs ∧
      ∀ k, q'.enters = some k → TransGen (CallEdge q'.state.funcs) i k by
    obtain ⟨i, hi, -, hk⟩ := hpath
    exact ⟨i, hi, hk⟩
  induction h with
  | single h =>
    obtain ⟨i, hi, hgrows, hedge⟩ := nested_edge h
    exact ⟨i, hi, hgrows, fun k hk => .single (hedge k hk)⟩
  | tail _ h ih =>
    obtain ⟨j, hj, hbelow, hpath⟩ := ih
    obtain ⟨i, hi, hgrows, hedge⟩ := nested_edge h
    exact ⟨i, hi, hgrows.trans hbelow,
      fun k hk => .head ((hedge j hj).mono hbelow) (hpath k hk)⟩

/-- **A function that is called while it is executed** is on a cycle of the call graph. -/
theorem Reenters.cycle {q : Request} (h : Reenters q) :
    ∃ i, q.enters = some i ∧ TransGen (CallEdge q.state.funcs) i i := by
  obtain ⟨i, q', hq, hq', hbelow⟩ := h
  obtain ⟨j, hj, hpath⟩ := below_path hbelow
  obtain rfl : i = j := Option.some.inj (hq'.symm.trans hj)
  exact ⟨i, hq, hpath i hq⟩

theorem enters_lt {q : Request} (h : q.state.funcs.length ≤ 16) {i : Nat}
    (hi : q.enters = some i) : i < 16 := by
  obtain ⟨line, s⟩ | s := q
  · rw [Request.enters] at hi
    split at hi
    · unfold callee at hi
      dsimp only at hi
      split at hi
      · exact (List.findIdx?_eq_some_iff_getElem.mp hi).1.trans_le h
      · cases hi
    · cases hi
  · cases hi

/-- Calls without end come back to a function that is being executed, because there are
16 of them at most. -/
theorem endless_reenters {filename : List UInt8} {content : Option (List UInt8)} {s : Cospy}
    {chain : ℕ → Request} (h : IsEndless requestTask (scriptTask filename content s) chain) :
    ∃ n, Reenters (chain n) := by
  have hfew : ∀ n, (chain n).state.funcs.length ≤ 16 := fun n =>
    h.keeps (requestTask_keeps atMost16) (scriptTask_keeps atMost16 filename content
      (Nat.zero_le 16)) n
  have henters : ∀ n, ∃ i, (chain n).enters = some i := fun n =>
    (nested_edge (h.2 n)).imp fun _ hi => hi.1
  choose f hf using henters
  obtain ⟨i, j, hij, heq⟩ := Finite.exists_ne_map_eq_of_infinite
    fun n => (⟨f n, enters_lt (hfew n) (hf n)⟩ : Fin 16)
  have hval : f i = f j := congrArg Fin.val heq
  rcases Nat.lt_or_gt_of_ne hij with hlt | hgt
  · exact ⟨j, f j, chain i, hf j, hval ▸ hf i, h.below hlt⟩
  · exact ⟨i, f i, chain j, hf i, hval ▸ hf j, h.below hgt⟩

end OsU
