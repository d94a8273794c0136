import OsU.Proof.Lexing

/-!
# Renderings

A rendering of a token sequence is the tokens as they are written, each with the blanks
in front of it. `Spaced` is the one demand: no two tokens are joined that would read as
one. `reads_render` says what the tokenizer makes of it, and `seen` is where it differs
from what is written: a `-` that stands directly before a number is gone, and the number
has its sign.

The tokenizer looks for a sign before it looks for an operator, and it does not look
back. So whether `-1` is one token or two depends on the one character behind the sign,
wherever it stands.
-/

set_option autoImplicit false

namespace OsU

open CString

/-- A token with the blanks in front of it. -/
abbrev Item : Type := List UInt8 × Lexeme

/-- The text of a rendering, with `stop` behind it. -/
def render : List Item → List UInt8 → List UInt8
  | [], stop => stop
  | i :: r, stop => i.1 ++ (i.2.spell ++ render r stop)

namespace Lexeme

/-- Words and numbers. -/
def Wordy : Lexeme → Prop
  | .number _ | .word _ => True
  | _ => False

instance : DecidablePred Wordy
  | .number _ | .word _ => .isTrue trivial
  | .string _ _ | .op _ | .opEq _ => .isFalse id

/-- Joined, the two read as something else: two words or numbers run into one, and an
operator with an equals sign behind it is another operator. -/
def Clashes (x y : Lexeme) : Prop :=
  (x.Wordy ∧ y.Wordy) ∨ ∃ b, x = .op b ∧ joinsEq b ∧ y.spell.head? = some 0x3D

/-- The sign of a number, when `x` is a `-` and nothing stands between the two. -/
def signed (x : Lexeme) (j : Item) : Option (List UInt8) :=
  match j with
  | ([], .number digits) => if x = .op 0x2D then some digits else none
  | _ => none

end Lexeme

/-- Blanks between the tokens, where they are needed. -/
structure Spaced (r : List Item) : Prop where
  wf : ∀ i ∈ r, (∀ b ∈ i.1, isBlank b = true) ∧ i.2.Wf
  apart : r.IsChain fun i j => j.1 = [] → ¬i.2.Clashes j.2

/-- What the tokenizer reads. -/
def seen : List Item → List Tok
  | [] => []
  | [i] => [i.2.tok]
  | i :: j :: r =>
    match i.2.signed j with
    | some digits => .number (-BitVec.ofNat 32 (Lexeme.digitsValue digits)) :: seen r
    | none => i.2.tok :: seen (j :: r)

namespace Spaced

theorem tail {i : Item} {r : List Item} (h : Spaced (i :: r)) : Spaced r :=
  ⟨fun j hj => h.wf j (List.mem_cons_of_mem i hj), h.apart.tail⟩

theorem head {i : Item} {r : List Item} (h : Spaced (i :: r)) :
    (∀ b ∈ i.1, isBlank b = true) ∧ i.2.Wf := h.wf i List.mem_cons_self

theorem not_clashes {i j : Item} {r : List Item} (h : Spaced (i :: j :: r)) (hj : j.1 = []) :
    ¬i.2.Clashes j.2 := (List.isChain_cons_cons.mp h.apart).1 hj

end Spaced

/-! ## What stands behind a token -/

/-- No token goes on with a blank. -/
theorem isBlank_closes {b : UInt8} (h : isBlank b = true) :
    isDigit b = false ∧ isAlnum b = false ∧ b ≠ 0x3D := by
  simp only [isBlank, Bool.or_eq_true, decide_eq_true_eq] at h
  obtain rfl | rfl := h
  · exact ⟨rfl, rfl, by decide⟩
  · exact ⟨rfl, rfl, by decide⟩

theorem Lexeme.Ends.of_blank {x : Lexeme} {s : List UInt8} (hs : ∀ b ∈ s.head?, isBlank b = true) :
    x.Ends s := by
  cases x with
  | number digits => exact fun b hb => (isBlank_closes (hs b hb)).1
  | string quote text => trivial
  | word w => exact fun b hb => (isBlank_closes (hs b hb)).2.1
  | op b =>
    refine ⟨fun _ he => ?_, fun _ c hc => (isBlank_closes (hs c hc)).1⟩
    exact (isBlank_closes (hs 0x3D he)).2.2 rfl
  | opEq b => trivial

theorem isAlnum_of_isDigit {b : UInt8} (h : isDigit b = true) : isAlnum b = true := by
  rw [isAlnum, h, Bool.or_true]

/-- A token that is neither word nor number does not begin like one. -/
theorem Lexeme.Wf.head_not_alnum {y : Lexeme} (hy : y.Wf) (hw : ¬y.Wordy) (s : List UInt8) :
    ∀ b ∈ (y.spell ++ s).head?, isAlnum b = false := by
  intro b hb
  cases y with
  | number digits => exact absurd trivial hw
  | string quote text =>
    cases hb
    obtain rfl | rfl := hy.1 <;> rfl
  | word w => exact absurd trivial hw
  | op c =>
    cases hb
    have hall : ∀ b ∈ ascii "+-*/%():,=!<>", isAlnum b = false :=
      forall_mem_of_all (by decide)
    exact hall b hy
  | opEq c =>
    cases hb
    have hall : ∀ b ∈ ascii "=!<>", isAlnum b = false :=
      forall_mem_of_all (by decide)
    exact hall b hy

/-- A token that is not a number does not begin with a digit. -/
theorem Lexeme.Wf.head_not_digit {y : Lexeme} (hy : y.Wf) (hn : ∀ digits, y ≠ .number digits)
    (s : List UInt8) : ∀ b ∈ (y.spell ++ s).head?, isDigit b = false := by
  intro b hb
  by_cases hw : y.Wordy
  · cases y with
    | number digits => exact absurd rfl (hn digits)
    | word w =>
      obtain ⟨c, rest, rfl, ha⟩ := hy.alpha
      cases hb
      exact isAlpha_not_isDigit ha
    | string quote text => exact absurd hw id
    | op c => exact absurd hw id
    | opEq c => exact absurd hw id
  · refine Bool.eq_false_iff.mpr fun hd => ?_
    have hal := Lexeme.Wf.head_not_alnum hy hw s b hb
    exact Bool.false_ne_true (hal.symm.trans (isAlnum_of_isDigit hd))

theorem Lexeme.Wf.spell_ne_nil {y : Lexeme} (hy : y.Wf) : y.spell ≠ [] := by
  cases y with
  | number digits => exact hy.1
  | string quote text => exact List.cons_ne_nil _ _
  | word w =>
    obtain ⟨b, rest, rfl, _⟩ := hy.alpha
    exact List.cons_ne_nil _ _
  | op b => exact List.cons_ne_nil _ _
  | opEq b => exact List.cons_ne_nil _ _

theorem Lexeme.signed_eq_none {x y : Lexeme} (h : x.signed ([], y) = none) :
    x = .op 0x2D → ∀ digits, y ≠ .number digits := by
  rintro rfl digits rfl
  rw [Lexeme.signed, if_pos rfl] at h
  exact absurd h nofun

theorem Lexeme.signed_eq_some {x : Lexeme} {j : Item} {digits : List UInt8}
    (h : x.signed j = some digits) : x = .op 0x2D ∧ j = ([], .number digits) := by
  unfold Lexeme.signed at h
  split at h
  · split at h
    · cases h
      exact ⟨by assumption, rfl⟩
    · exact absurd h nofun
  · exact absurd h nofun

theorem Lexeme.signed_of_ne {x : Lexeme} (h : x ≠ .op 0x2D) (j : Item) : x.signed j = none := by
  cases hs : x.signed j with
  | none => rfl
  | some digits => exact absurd (Lexeme.signed_eq_some hs).1 h

/-- Tokens that do not clash may be joined, but for a `-` and a number. -/
theorem Lexeme.Ends.of_not_clashes {x y : Lexeme} (hy : y.Wf) (hc : ¬x.Clashes y)
    (hsign : x.signed ([], y) = none) (s : List UInt8) : x.Ends (y.spell ++ s) := by
  cases x with
  | number digits =>
    have hw : ¬y.Wordy := fun hw => hc (Or.inl ⟨trivial, hw⟩)
    intro b hb
    refine Bool.eq_false_iff.mpr fun hd => ?_
    have hal := hy.head_not_alnum hw s b hb
    exact Bool.false_ne_true (hal.symm.trans (isAlnum_of_isDigit hd))
  | string quote text => trivial
  | word w => exact hy.head_not_alnum (fun hw => hc (Or.inl ⟨trivial, hw⟩)) s
  | op b =>
    constructor
    · intro hj he
      rw [List.head?_append_of_ne_nil _ hy.spell_ne_nil] at he
      exact hc (Or.inr ⟨b, rfl, hj, he⟩)
    · rintro rfl
      exact hy.head_not_digit (Lexeme.signed_eq_none hsign rfl) s
  | opEq b => trivial

/-! ## What the tokenizer reads -/

theorem Scanned.reads {l : Lexer} {t : Tok} {s : List UInt8} {ts : List Tok} {stop : List UInt8}
    (h : Scanned l t s) (hs : ∀ l' : Lexer, l'.cursor = s → Reads (nextToken l') ts stop) :
    Reads l (t :: ts) stop := by
  rw [← h.token]
  exact .token h.more (hs l h.cursor)

/-- What stands behind the first token of a rendering does not run into it. -/
theorem Spaced.ends {i j : Item} {r : List Item} (h : Spaced (i :: j :: r))
    (hsign : i.2.signed j = none) (stop : List UInt8) : i.2.Ends (render (j :: r) stop) := by
  obtain ⟨hg, hy⟩ := h.tail.head
  rw [render]
  obtain ⟨g, y⟩ := j
  cases g with
  | nil => exact Lexeme.Ends.of_not_clashes hy (h.not_clashes rfl) hsign _
  | cons b g =>
    refine Lexeme.Ends.of_blank fun c hc => ?_
    cases hc
    exact hg b List.mem_cons_self

/-- **The tokens of a rendering.** `next_token` reads `seen r`, and goes to the end. -/
theorem reads_render {r : List Item} (h : Spaced r) {stop : List UInt8}
    (hstop : ∀ b ∈ stop, isBlank b = true) (l : Lexer) (hl : l.cursor = render r stop) :
    Reads (nextToken l) (seen r) [] := by
  have hhead : ∀ b ∈ stop.head?, isBlank b = true :=
    fun b hb => hstop b (List.mem_of_mem_head? hb)
  induction r using seen.induct generalizing l with
  | case1 =>
    obtain ⟨he, hc⟩ := nextToken_end (l := l) (by rw [hl]; exact hstop)
    rw [← hc]
    exact .eof he
  | case2 i =>
    obtain ⟨hg, hx⟩ := h.head
    refine (nextToken_lexeme l hg hx (Lexeme.Ends.of_blank hhead) hl).reads ?_
    intro l' hl'
    obtain ⟨he, hc⟩ := nextToken_end (l := l') (by rw [hl']; exact hstop)
    rw [← hc]
    exact .eof he
  | case3 i j r digits hsign ih =>
    obtain ⟨hx, rfl⟩ := Lexeme.signed_eq_some hsign
    obtain ⟨hg, _⟩ := h.head
    have hnum : (Lexeme.number digits).Wf := h.tail.head.2
    -- The digits end where the next item begins, which is not a digit.
    have hends : (Lexeme.number digits).Ends (render r stop) := by
      cases r with
      | nil => exact Lexeme.Ends.of_blank hhead
      | cons k r =>
        have hne : Lexeme.number digits ≠ .op 0x2D := nofun
        exact h.tail.ends (Lexeme.signed_of_ne hne k) stop
    have hcur : l.cursor = i.1 ++ (0x2D :: (digits ++ render r stop)) := by
      rw [hl, render, hx]
      rfl
    rw [seen, hsign]
    exact (nextToken_negative l hg hnum hends hcur).reads fun l' hl' => ih h.tail.tail l' hl'
  | case4 i j r hsign ih =>
    obtain ⟨hg, hx⟩ := h.head
    rw [seen, hsign]
    exact (nextToken_lexeme l hg hx (h.ends hsign stop) hl).reads fun l' hl' => ih h.tail l' hl'

/-- With a blank before every token but the first, all tokens are read as they are written. -/
theorem seen_of_blanks {i : Item} {r : List Item} (h : ∀ j ∈ r, j.1 ≠ []) :
    seen (i :: r) = (i :: r).map fun j => j.2.tok := by
  induction r generalizing i with
  | nil => rfl
  | cons j r ih =>
    have hj : j.1 ≠ [] := h j List.mem_cons_self
    have hsign : i.2.signed j = none := by
      cases hs : i.2.signed j with
      | none => rfl
      | some digits =>
        obtain ⟨_, rfl⟩ := Lexeme.signed_eq_some hs
        exact absurd rfl hj
    rw [seen, hsign]
    dsimp only
    rw [ih fun k hk => h k (List.mem_cons_of_mem j hk)]
    rfl

theorem spaced_of_blanks {i : Item} {r : List Item} (hwf : ∀ j ∈ i :: r, j.2.Wf)
    (hi : ∀ b ∈ i.1, isBlank b = true) (hr : ∀ j ∈ r, j.1 = [0x20]) : Spaced (i :: r) := by
  constructor
  · intro j hj
    refine ⟨?_, hwf j hj⟩
    obtain rfl | hj := List.mem_cons.mp hj
    · exact hi
    · rw [hr j hj]
      exact List.forall_mem_singleton.mpr rfl
  · induction r generalizing i with
    | nil => exact List.IsChain.singleton i
    | cons j r ih =>
      have hj := hr j List.mem_cons_self
      refine List.isChain_cons_cons.mpr ⟨fun he => absurd (hj.symm.trans he) nofun, ?_⟩
      refine ih (fun k hk => hwf k (List.mem_cons_of_mem i hk)) ?_
        fun k hk => hr k (List.mem_cons_of_mem j hk)
      rw [hj]
      exact List.forall_mem_singleton.mpr rfl

end OsU
