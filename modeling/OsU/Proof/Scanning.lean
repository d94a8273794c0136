import OsU.Cospy.Scanner
import OsU.Proof.Division

/-!
# The tokenizer stays in the line

Every loop of `next_token` stops at the terminator, because no character it goes on for
is zero, so each does in memory what its counterpart does on the text that is left. The
tokenizer in memory and the one on texts stay side by side (`Abreast`), and what the
parser does with the second is what it does with the first.

The rest of the development works with texts, where reading past the end is not
possible. Here is the justification: the tokenizer of the source has a cursor into an
array and two buffers, and each access is counted, so staying inside is proved and not
assumed.

Whether `parse_expr` comes back is a question about more than the scanner. Its recursion
ends on every text, and one thing can keep it: a division of -2^31 by -1, at which the
processor traps, and after the handler for the trap the same instruction is executed
again. So the second half of the result is an equivalence.
-/

set_option autoImplicit false

namespace OsU

open CString

/-- The line has `len` characters and a terminator. -/
structure Line (line : Cells UInt8) (len : Nat) : Prop where
  chars : ∀ i < len, line.val i ≠ 0
  ends : line.val len = 0

/-- The text from an index on. -/
def textFrom (line : Cells UInt8) (len p : Nat) : List UInt8 := line.slice p (len - p)

section Text

variable {line : Cells UInt8} {len p : Nat}

theorem textFrom_of_lt (h : p < len) :
    textFrom line len p = line.val p :: textFrom line len (p + 1) := by
  have hlen : len - p = len - (p + 1) + 1 := by omega
  rw [textFrom, hlen, Cells.slice_cons, textFrom]

theorem textFrom_end : textFrom line len len = [] := by
  rw [textFrom, Nat.sub_self, Cells.slice_zero]

theorem Line.peek_textFrom (h : Line line len) (hp : p ≤ len) :
    peek (textFrom line len p) = line.val p := by
  rcases hp.lt_or_eq with hlt | rfl
  · rw [textFrom_of_lt hlt, peek_cons]
  · rw [textFrom_end, peek_nil, h.ends]

/-- An index at a character that is not zero is before the terminator. -/
theorem Line.lt_of_ne (h : Line line len) (hp : p ≤ len) (hc : line.val p ≠ 0) : p < len :=
  hp.lt_of_ne fun heq => hc (heq ▸ h.ends)

end Text

/-! ## The loops -/

section Loops

variable {line : Cells UInt8} {len : Nat} (h : Line line len)

include h

theorem skipBlanks_spec {n p : Nat} (hp : p ≤ len) (hn : len - p < n) :
    ∃ q, skipBlanks line n p = some q ∧ p ≤ q ∧ q ≤ len ∧
      skipWhitespace (textFrom line len p) = textFrom line len q ∧
      (isBlank (line.val p) = true → p < q) ∧ isBlank (line.val q) = false := by
  induction n generalizing p with
  | zero => exact absurd hn (Nat.not_lt_zero _)
  | succ n ih =>
    rw [skipBlanks]
    by_cases hb : isBlank (line.val p) = true
    · have hlt : p < len := h.lt_of_ne hp (by rintro h0; rw [h0] at hb; exact absurd hb (by decide))
      obtain ⟨q, hq, hpq, hql, htext, -, hend⟩ := ih (p := p + 1) hlt (by omega)
      refine ⟨q, ?_, by omega, hql, ?_, fun _ => by omega, hend⟩
      · rw [if_pos hb, hq]
      · rw [← htext, textFrom_of_lt hlt]
        exact List.dropWhile_cons_of_pos hb
    · rw [if_neg hb]
      refine ⟨p, rfl, le_rfl, hp, ?_, fun hb' => absurd hb' hb, Bool.eq_false_iff.mpr hb⟩
      rcases hp.lt_or_eq with hlt | rfl
      · rw [textFrom_of_lt hlt]
        exact List.dropWhile_cons_of_neg hb
      · rw [textFrom_end]
        rfl

theorem scanDigits_spec {n p : Nat} (hp : p ≤ len) (hn : len - p < n) (v : BitVec 32) :
    ∃ v' q, scanDigits line n p v = some (v', q) ∧ p ≤ q ∧ q ≤ len ∧
      numberLoop (textFrom line len p) v = (v', textFrom line len q) ∧
      (isDigit (line.val p) = true → p < q) := by
  induction n generalizing p v with
  | zero => exact absurd hn (Nat.not_lt_zero _)
  | succ n ih =>
    rw [scanDigits]
    by_cases hd : isDigit (line.val p) = true
    · have hlt : p < len := h.lt_of_ne hp (by rintro h0; rw [h0] at hd; exact absurd hd (by decide))
      obtain ⟨v', q, hq, hpq, hql, hloop, -⟩ :=
        ih (p := p + 1) hlt (by omega) (v * 10 + BitVec.ofNat 32 ((line.val p).toNat - 0x30))
      refine ⟨v', q, ?_, by omega, hql, ?_, fun _ => by omega⟩
      · rw [if_pos hd, hq]
      · rw [textFrom_of_lt hlt, numberLoop, if_pos hd, hloop]
    · rw [if_neg hd]
      refine ⟨v, p, rfl, le_rfl, hp, ?_, fun hd' => absurd hd' hd⟩
      rcases hp.lt_or_eq with hlt | rfl
      · rw [textFrom_of_lt hlt, numberLoop, if_neg hd]
      · rw [textFrom_end]
        rfl

omit h in
/-- What a copying loop has done, with the text it has copied and what is left: where
the two indices stand, what is in the buffer before and behind them, and how far it has
been stored. -/
structure Copied (line : Cells UInt8) (len i p : Nat) (buf : Cells UInt8) (room : Nat)
    (copy : List UInt8 × List UInt8) (r : Nat × Nat × Cells UInt8) : Prop where
  index : r.1 = i + copy.1.length
  cursor : r.2.1 = p + copy.1.length
  inside : r.2.1 ≤ len
  left : copy.2 = textFrom line len r.2.1
  copied : r.2.2.slice i copy.1.length = copy.1
  below : ∀ j < i, r.2.2.val j = buf.val j
  top : r.2.2.top ≤ max buf.top (i + room)
  short : copy.1.length ≤ room

theorem copyToken_spec (keep : UInt8 → Bool) (hk : keep 0 = false) (room : Nat) {i p : Nat}
    (buf : Cells UInt8) (hp : p ≤ len) :
    Copied line len i p buf room (copyWhile keep room (textFrom line len p))
      (copyToken line keep room i p buf) := by
  induction room generalizing i p buf with
  | zero => exact ⟨rfl, rfl, hp, rfl, rfl, fun _ _ => rfl, Nat.le_max_left _ _, le_rfl⟩
  | succ room ih =>
    rw [copyToken]
    by_cases hc : keep (line.val p) = true
    · have hlt : p < len := h.lt_of_ne hp (by rintro h0; rw [h0, hk] at hc; exact nomatch hc)
      have hrest := ih (i := i + 1) (buf.set i (line.val p)) (show p + 1 ≤ len from hlt)
      rw [if_pos hc, textFrom_of_lt hlt, copyWhile, if_pos hc]
      -- What follows is stored behind the byte copied now, which keeps its place.
      have hhere := hrest.below i (Nat.lt_succ_self i)
      rw [Cells.set_val, Function.update_self] at hhere
      refine ⟨?_, ?_, hrest.inside, hrest.left, ?_, fun j hj => ?_, ?_, ?_⟩
      · rw [hrest.index, List.length_cons]
        omega
      · rw [hrest.cursor, List.length_cons]
        omega
      · rw [List.length_cons, Cells.slice_cons, hhere, hrest.copied]
      · rw [hrest.below j (by omega), Cells.set_val, Function.update_of_ne (by omega)]
      · have htop := hrest.top
        rw [Cells.set_top] at htop
        omega
      · exact Nat.succ_le_succ hrest.short
    · rw [if_neg hc]
      -- The loop ends at a byte that is not kept, or at the end of the line, where a
      -- zero is.
      have hstop : copyWhile keep (room + 1) (textFrom line len p) = ([], textFrom line len p) := by
        rcases hp.lt_or_eq with hlt | rfl
        · rw [textFrom_of_lt hlt, copyWhile, if_neg hc]
        · rw [textFrom_end]
          rfl
      rw [hstop]
      exact ⟨rfl, rfl, hp, rfl, rfl, fun _ _ => rfl, Nat.le_max_left _ _, Nat.zero_le _⟩

omit h in
/-- The same operator, and the same text behind it. -/
def SameOperator (line : Cells UInt8) (len p : Nat) (r : TokenType × Nat)
    (o : TokenType × List UInt8) : Prop :=
  p < r.2 ∧ r.2 ≤ len ∧ o = (r.1, textFrom line len r.2)

omit h in
theorem SameOperator.ite {p : Nat} {c : Prop} [Decidable c] {r r' : TokenType × Nat}
    {o o' : TokenType × List UInt8} (hpos : SameOperator line len p r o)
    (hneg : SameOperator line len p r' o') :
    SameOperator line len p (if c then r else r') (if c then o else o') := by
  split
  · exact hpos
  · exact hneg

theorem scanOperator_spec {p : Nat} (hp : p < len) :
    SameOperator line len p (scanOperator line p)
      (operator (line.val p) (textFrom line len (p + 1))) := by
  have hone : ∀ t : TokenType,
      SameOperator line len p (t, p + 1) (t, textFrom line len (p + 1)) :=
    fun t => ⟨Nat.lt_succ_self p, hp, rfl⟩
  have heq : ∀ one two : TokenType, SameOperator line len p (scanEq line one two (p + 1))
      (withEq one two (textFrom line len (p + 1))) := by
    intro one two
    rw [withEq, h.peek_textFrom hp, scanEq]
    split
    · rename_i hc
      have hlt : p + 1 < len := h.lt_of_ne hp (by rw [hc]; decide)
      refine ⟨by omega, hlt, ?_⟩
      rw [textFrom_of_lt hlt]
      rfl
    · exact hone one
  unfold scanOperator operator
  refine (hone .plus).ite <| (hone .minus).ite <| (hone .star).ite <| (hone .slash).ite <|
    (hone .percent).ite <| (hone .lparen).ite <| (hone .rparen).ite <| (hone .colon).ite <|
    (hone .comma).ite ?_
  exact (heq .eq .eqeq).ite <| (heq .not .ne).ite <| (heq .lt .le).ite <|
    (heq .gt .ge).ite (hone .eof)

end Loops

/-! ## One token -/

/-- The texts in the variables of the tokenizer. -/
structure Abreast (line : Cells UInt8) (len : Nat) (s : Scanner) (l : Lexer) : Prop where
  cursor : l.cursor = textFrom line len s.cursor
  currentToken : l.currentToken = s.currentToken
  tokenNumber : l.tokenNumber = s.tokenNumber
  tokenString : s.tokenString.slice 0 (l.tokenString.length + 1) = l.tokenString ++ [0]
  tokenIdent : s.tokenIdent.slice 0 (l.tokenIdent.length + 1) = l.tokenIdent ++ [0]

/-- The cursor has moved on inside the line, and the writes are inside the buffers. -/
structure StaysIn (len : Nat) (s s' : Scanner) : Prop where
  after : s.cursor ≤ s'.cursor
  inside : s'.cursor ≤ len
  tokenString : s'.tokenString.top ≤ max s.tokenString.top 64
  tokenIdent : s'.tokenIdent.top ≤ max s.tokenIdent.top 32

/-- A copy that has been given its terminator. -/
theorem Copied.terminated {line buf : Cells UInt8} {len p room : Nat}
    {copy : List UInt8 × List UInt8} {r : Nat × Nat × Cells UInt8}
    (h : Copied line len 0 p buf room copy r) :
    (r.2.2.set r.1 0).slice 0 (copy.1.length + 1) = copy.1 ++ [0] ∧
      (r.2.2.set r.1 0).top ≤ max buf.top (room + 1) := by
  have hindex := h.index
  rw [Nat.zero_add] at hindex
  constructor
  · rw [Cells.slice_succ, hindex, Cells.set_val, Nat.zero_add, Function.update_self,
      Cells.slice_congr (m := r.2.2), h.copied]
    intro k hk
    rw [Cells.set_val, Function.update_of_ne (by omega)]
  · have htop := h.top
    have hshort := h.short
    rw [Cells.set_top]
    omega

section Token

variable {line : Cells UInt8} {len : Nat}

/-- A token is taken, the same one as from the text. -/
structure Takes (line : Cells UInt8) (len : Nat) (s s' : Scanner) : Prop extends
    StaysIn len s s' where
  advances : s.cursor < s'.cursor
  abreast : ∀ l, Abreast line len s l →
    Abreast line len s' (tokenAt l (line.val s.cursor) (textFrom line len (s.cursor + 1)))

variable (h : Line line len) {n : Nat} {s : Scanner} (hlt : s.cursor < len)
  (hchar : ¬ (line.val s.cursor = 0 ∨ line.val s.cursor = 0x23))

include h hlt hchar

theorem scanToken_number (hn : len - s.cursor < n)
    (hnum : isDigit (line.val s.cursor) = true ∨
      (line.val s.cursor = 0x2D ∧ isDigit (line.val (s.cursor + 1)) = true)) :
    ∃ s', scanToken line n s = some s' ∧ Takes line len s s' := by
  have hrest : (if line.val s.cursor = 0x2D then textFrom line len (s.cursor + 1)
        else line.val s.cursor :: textFrom line len (s.cursor + 1)) =
      textFrom line len (if line.val s.cursor = 0x2D then s.cursor + 1 else s.cursor) := by
    split
    · rfl
    · exact (textFrom_of_lt hlt).symm
  obtain ⟨v, q, hq, hpq, hql, hloop, hadv⟩ := scanDigits_spec h (n := n)
    (p := if line.val s.cursor = 0x2D then s.cursor + 1 else s.cursor)
    (by split <;> omega) (by split <;> omega) 0
  have hmore : s.cursor < q := by
    split at hpq
    · omega
    · rename_i hm
      rw [if_neg hm] at hadv
      exact hadv (hnum.resolve_right fun hd => hm hd.1)
  have hscan : scanToken line n s = some { s with
      cursor := q
      currentToken := .number
      tokenNumber := if line.val s.cursor = 0x2D then v * -1 else v * 1 } := by
    rw [scanToken, if_neg hchar, if_pos hnum, hq]
    rfl
  refine ⟨_, hscan,
    ⟨⟨hmore.le, hql, Nat.le_max_left _ _, Nat.le_max_left _ _⟩, hmore, fun l hl => ?_⟩⟩
  rw [tokenAt, if_neg hchar, h.peek_textFrom hlt, if_pos hnum, hrest, hloop]
  exact ⟨rfl, rfl, rfl, hl.tokenString, hl.tokenIdent⟩

theorem scanToken_string
    (hnum : ¬ (isDigit (line.val s.cursor) = true ∨
      (line.val s.cursor = 0x2D ∧ isDigit (line.val (s.cursor + 1)) = true)))
    (hquote : line.val s.cursor = 0x22 ∨ line.val s.cursor = 0x27) :
    ∃ s', scanToken line n s = some s' ∧ Takes line len s s' := by
  have hcopy := copyToken_spec h (fun c => c ≠ 0 ∧ c ≠ line.val s.cursor) (by simp) 63
    (i := 0) s.tokenString (show s.cursor + 1 ≤ len from hlt)
  have hadv : s.cursor + 1 ≤ (copyToken line (fun c => c ≠ 0 ∧ c ≠ line.val s.cursor) 63 0
      (s.cursor + 1) s.tokenString).2.1 := by
    rw [hcopy.cursor]
    exact Nat.le_add_right _ _
  refine ⟨_, by rw [scanToken, if_neg hchar, if_neg hnum, if_pos hquote], ?_⟩
  generalize copyToken line (fun c => c ≠ 0 ∧ c ≠ line.val s.cursor) 63 0 (s.cursor + 1)
    s.tokenString = r at hcopy hadv
  obtain ⟨hslice, htop⟩ := hcopy.terminated
  -- The closing quote is passed over only when it is there, so the cursor does not
  -- leave the line.
  have hclose : line.val r.2.1 = line.val s.cursor → r.2.1 < len := fun heq =>
    h.lt_of_ne hcopy.inside (heq ▸ fun h0 => hchar (.inl h0))
  have hinside : (if line.val r.2.1 = line.val s.cursor then r.2.1 + 1 else r.2.1) ≤ len := by
    split
    · rename_i heq
      exact hclose heq
    · exact hcopy.inside
  have hafter : s.cursor <
      if line.val r.2.1 = line.val s.cursor then r.2.1 + 1 else r.2.1 := by
    split <;> omega
  refine ⟨⟨hafter.le, hinside, htop, Nat.le_max_left _ _⟩, hafter, fun l hl => ?_⟩
  rw [tokenAt, if_neg hchar, h.peek_textFrom hlt, if_neg hnum, if_pos hquote]
  refine ⟨?_, rfl, hl.tokenNumber, hslice, hl.tokenIdent⟩
  dsimp only
  rw [hcopy.left, h.peek_textFrom hcopy.inside]
  split
  · rename_i heq
    rw [textFrom_of_lt (hclose heq), List.tail_cons]
  · rfl

theorem scanToken_word
    (hnum : ¬ (isDigit (line.val s.cursor) = true ∨
      (line.val s.cursor = 0x2D ∧ isDigit (line.val (s.cursor + 1)) = true)))
    (hquote : ¬ (line.val s.cursor = 0x22 ∨ line.val s.cursor = 0x27))
    (halpha : isAlpha (line.val s.cursor) = true) :
    ∃ s', scanToken line n s = some s' ∧ Takes line len s s' := by
  have hcopy := copyToken_spec h isAlnum (by decide) 31 (i := 0) s.tokenIdent hlt.le
  have halnum : isAlnum (line.val s.cursor) = true := by rw [isAlnum, halpha, Bool.true_or]
  have hadv : s.cursor < (copyToken line isAlnum 31 0 s.cursor s.tokenIdent).2.1 := by
    rw [hcopy.cursor, textFrom_of_lt hlt, copyWhile, if_pos halnum, List.length_cons]
    omega
  refine ⟨_, by rw [scanToken, if_neg hchar, if_neg hnum, if_neg hquote, if_pos halpha], ?_⟩
  generalize copyToken line isAlnum 31 0 s.cursor s.tokenIdent = r at hcopy hadv
  obtain ⟨hslice, htop⟩ := hcopy.terminated
  have hword : r.2.2.slice 0 r.1 = (copyWhile isAlnum 31 (textFrom line len s.cursor)).1 := by
    rw [hcopy.index, Nat.zero_add, hcopy.copied]
  refine ⟨⟨hadv.le, hcopy.inside, Nat.le_max_left _ _, htop⟩, hadv, fun l hl => ?_⟩
  rw [tokenAt, if_neg hchar, h.peek_textFrom hlt, if_neg hnum, if_neg hquote, if_pos halpha,
    ← textFrom_of_lt hlt]
  exact ⟨hcopy.left, congrArg wordType hword.symm, hl.tokenNumber, hl.tokenString, hslice⟩

theorem scanToken_operator
    (hnum : ¬ (isDigit (line.val s.cursor) = true ∨
      (line.val s.cursor = 0x2D ∧ isDigit (line.val (s.cursor + 1)) = true)))
    (hquote : ¬ (line.val s.cursor = 0x22 ∨ line.val s.cursor = 0x27))
    (halpha : ¬ isAlpha (line.val s.cursor) = true) :
    ∃ s', scanToken line n s = some s' ∧ Takes line len s s' := by
  obtain ⟨hadv, hinside, hop⟩ := scanOperator_spec h hlt
  have hscan : scanToken line n s = some { s with
      cursor := (scanOperator line s.cursor).2
      currentToken := (scanOperator line s.cursor).1 } := by
    rw [scanToken, if_neg hchar, if_neg hnum, if_neg hquote, if_neg halpha]
  refine ⟨_, hscan,
    ⟨⟨hadv.le, hinside, Nat.le_max_left _ _, Nat.le_max_left _ _⟩, hadv, fun l hl => ?_⟩⟩
  rw [tokenAt, if_neg hchar, h.peek_textFrom hlt, if_neg hnum, if_neg hquote, if_neg halpha, hop]
  exact ⟨rfl, rfl, hl.tokenNumber, hl.tokenString, hl.tokenIdent⟩

theorem scanToken_spec (hn : len - s.cursor < n) :
    ∃ s', scanToken line n s = some s' ∧ Takes line len s s' := by
  by_cases hnum : isDigit (line.val s.cursor) = true ∨
      (line.val s.cursor = 0x2D ∧ isDigit (line.val (s.cursor + 1)) = true)
  · exact scanToken_number h hlt hchar hn hnum
  by_cases hquote : line.val s.cursor = 0x22 ∨ line.val s.cursor = 0x27
  · exact scanToken_string h hlt hchar hnum hquote
  by_cases halpha : isAlpha (line.val s.cursor) = true
  · exact scanToken_word h hlt hchar hnum hquote halpha
  · exact scanToken_operator h hlt hchar hnum hquote halpha

end Token

/-- **`next_token`.** It ends, inside the line; it leaves its place unless that is the
end of the text; and it reads the token that the text begins with. One spec for the
whole function, from one lemma for each of its loops. -/
theorem scanNext_spec {line : Cells UInt8} {len : Nat} (h : Line line len) {n : Nat} {s : Scanner}
    (hp : s.cursor ≤ len) (hn : len - s.cursor < n) :
    ∃ s', scanNext line n s = some s' ∧ StaysIn len s s' ∧
      (line.val s.cursor ≠ 0 → line.val s.cursor ≠ 0x23 → s.cursor < s'.cursor) ∧
      ∀ l, Abreast line len s l → Abreast line len s' (nextToken l) := by
  obtain ⟨q, hq, hpq, hql, htext, hblank, hstop⟩ := skipBlanks_spec h hp hn
  rw [scanNext, hq]
  by_cases hend : line.val q = 0 ∨ line.val q = 0x23
  · refine ⟨{ s with cursor := q, currentToken := .eof }, if_pos hend,
      ⟨hpq, hql, Nat.le_max_left _ _, Nat.le_max_left _ _⟩, fun h0 h23 => ?_, fun l hl => ?_⟩
    · refine hpq.lt_of_ne fun heq => ?_
      rw [← heq] at hend
      exact absurd hend (not_or.mpr ⟨h0, h23⟩)
    · rw [nextToken, hl.cursor, htext]
      rcases hql.lt_or_eq with hlt | rfl
      · rw [textFrom_of_lt hlt]
        dsimp only
        rw [tokenAt, if_pos hend]
        exact ⟨(textFrom_of_lt hlt).symm, rfl, hl.tokenNumber, hl.tokenString, hl.tokenIdent⟩
      · rw [textFrom_end]
        exact ⟨textFrom_end.symm, rfl, hl.tokenNumber, hl.tokenString, hl.tokenIdent⟩
  · have hlt : q < len := h.lt_of_ne hql fun h0 => hend (.inl h0)
    obtain ⟨s', hs', ht⟩ :=
      scanToken_spec h (n := n) (s := { s with cursor := q }) hlt hend (by dsimp only; omega)
    refine ⟨s', hs', ⟨hpq.trans ht.after, ht.inside, ht.tokenString, ht.tokenIdent⟩,
      fun _ _ => hpq.trans_lt ht.advances, fun l hl => ?_⟩
    have hspells := ht.abreast { l with cursor := textFrom line len q }
      ⟨rfl, hl.currentToken, hl.tokenNumber, hl.tokenString, hl.tokenIdent⟩
    rw [nextToken, hl.cursor, htext, textFrom_of_lt hlt]
    exact hspells

/-! ## The parser -/

theorem numberLoop_suffix (s : List UInt8) (v : BitVec 32) : (numberLoop s v).2 <:+ s := by
  induction s generalizing v with
  | nil => exact List.suffix_refl _
  | cons b s ih =>
    rw [numberLoop]
    split
    · exact (ih _).trans (List.suffix_cons b s)
    · exact List.suffix_refl _

theorem copyWhile_suffix (p : UInt8 → Bool) (n : Nat) (s : List UInt8) :
    (copyWhile p n s).2 <:+ s :=
  copyWhile_rest p n s ▸ List.drop_suffix _ s

theorem tokenAt_suffix (l : Lexer) (b : UInt8) (rest : List UInt8) :
    (tokenAt l b rest).cursor <:+ b :: rest := by
  have hrest := List.suffix_cons b rest
  unfold tokenAt
  split
  · exact List.suffix_refl _
  · split
    · refine (numberLoop_suffix _ _).trans ?_
      split
      · exact hrest
      · exact List.suffix_refl _
    · split
      · have hcopy := (copyWhile_suffix (fun c => c ≠ 0 ∧ c ≠ b) 63 rest).trans hrest
        dsimp only
        split
        · exact (List.tail_suffix _).trans hcopy
        · exact hcopy
      · split
        · exact copyWhile_suffix isAlnum 31 (b :: rest)
        · exact operator_cases (P := fun r => r.2 <:+ b :: rest) b rest (fun _ _ _ _ => hrest)
            fun _ _ _ _ => (List.tail_suffix rest).trans hrest

theorem nextToken_suffix (l : Lexer) : (nextToken l).cursor <:+ l.cursor := by
  have hskip : skipWhitespace l.cursor <:+ l.cursor := List.dropWhile_suffix _
  unfold nextToken
  cases hs : skipWhitespace l.cursor with
  | nil => exact List.nil_suffix
  | cons b rest =>
    rw [hs] at hskip
    exact (tokenAt_suffix l b rest).trans hskip

/-- Whatever the parser does, the cursor stays in the text it was given. -/
theorem moves_suffix : Moves fun e e' => e'.lex.cursor <:+ e.lex.cursor where
  refl _ := List.suffix_refl _
  trans hab hbc := hbc.trans hab
  next e := nextToken_suffix e.lex
  input _ := List.suffix_refl _
  op d t left right e := by rw [levelOp_lex]

/-- The loop over the arguments of a call has come to its end. -/
theorem skipArgs_done {n : Nat} {e : Eval} (h : e.lex.size < n) :
    (skipArgs n e).tok = .rparen ∨ (skipArgs n e).tok = .eof := by
  induction n generalizing e with
  | zero => exact absurd h (Nat.not_lt_zero _)
  | succ n ih =>
    rw [skipArgs]
    split
    · rename_i hgo
      have hlt := size_next_lt hgo.2
      exact ih (by omega)
    · rename_i hstop
      exact (not_and_or.mp hstop).imp not_not.mp not_not.mp

/-- The suffixes of a line are the texts from its indices on. -/
theorem exists_textFrom {line : Cells UInt8} {len p : Nat} (hp : p ≤ len) {text : List UInt8}
    (h : text <:+ textFrom line len p) : ∃ q, p ≤ q ∧ q ≤ len ∧ text = textFrom line len q := by
  obtain ⟨done, hdone⟩ := h
  have hsplit := Cells.slice_append_inv line hdone.symm
  have hlen := congrArg List.length hdone
  rw [List.length_append, textFrom, Cells.length_slice] at hlen
  refine ⟨p + done.length, by omega, by omega, ?_⟩
  rw [textFrom, show len - (p + done.length) = len - p - done.length by omega, hsplit.2]

/-- **Parsing stays in the line, and it ends.** From every place in a line `next_token` ends inside
the line and inside its buffers, having left the place unless that is the end of the text, and the
loop over the arguments of a call ends. `parse_expr` on the text from there on comes back, with a
text from a place that is not before, exactly when nothing in it divides -2^31 by -1. -/
theorem parsing_stays_in_line {line : Cells UInt8} {len : Nat} (h : Line line len) {p : Nat}
    (hp : p ≤ len) :
    (∀ s : Scanner, s.cursor = p → ∀ n, len - p < n →
      ∃ s', scanNext line n s = some s' ∧ StaysIn len s s' ∧
        (line.val p ≠ 0 → line.val p ≠ 0x23 → p < s'.cursor) ∧
        ∀ l, Abreast line len s l → Abreast line len s' (nextToken l)) ∧
      (∀ e : Eval, e.lex.cursor = textFrom line len p →
        ((∃ r, ParseReturns e r ∧ ∃ q, p ≤ q ∧ q ≤ len ∧ r.2.lex.cursor = textFrom line len q) ↔
          ¬e.Traps)) ∧
      ∀ e : Eval, (skipArgs (e.lex.cursor.length + 1) e.next).tok = .rparen ∨
        (skipArgs (e.lex.cursor.length + 1) e.next).tok = .eof := by
  refine ⟨?_, ?_, fun e => skipArgs_done (Nat.lt_succ_of_le (size_nextToken_le e.lex))⟩
  · rintro s rfl n hn
    exact scanNext_spec h hp hn
  · intro e he
    rw [← parseReturns_iff]
    constructor
    · rintro ⟨r, hr, -⟩
      exact ⟨r, hr⟩
    · rintro ⟨r, hr⟩
      have hsuffix := moves_suffix.parseExpr e r hr.runs
      rw [he] at hsuffix
      obtain ⟨q, hpq, hql, hq⟩ := exists_textFrom hp hsuffix
      exact ⟨r, hr, q, hpq, hql, hq⟩

/-- A line that holds a text. -/
def lineOf (text : List UInt8) : Cells UInt8 := ⟨fun i => text.getD i 0, 0⟩

/-- The first token of `1+`, and the expression behind it. -/
theorem parsing_stays_in_line_sum :
    let line := lineOf (ascii "1+")
    let s : Scanner := ⟨0, .eof, 0, ⟨fun _ => 0, 0⟩, ⟨fun _ => 0, 0⟩⟩
    let e := (Eval.start fun _ => []).scan (ascii "1+")
    (∃ s', scanNext line 3 s = some s' ∧ StaysIn 2 s s' ∧ 0 < s'.cursor) ∧
      ∃ r, ParseReturns e r ∧ ∃ q, 1 ≤ q ∧ q ≤ 2 ∧ r.2.lex.cursor = textFrom line 2 q := by
  intro line s e
  have hline : Line line 2 := ⟨by decide, rfl⟩
  obtain ⟨s', hscan, hstays, hadv, -⟩ :=
    (parsing_stays_in_line hline (Nat.zero_le 2)).1 s rfl 3 (by decide)
  have hdivs : (readExpr e.lex).divisions e.world e.reads = [] := by decide +kernel
  have hno : ¬e.Traps := by
    rw [Eval.Traps, ← Syn.divisions_representable, hdivs]
    exact fun q hq => absurd hq List.not_mem_nil
  exact ⟨⟨s', hscan, hstays, hadv (by decide) (by decide)⟩,
    ((parsing_stays_in_line hline (show 1 ≤ 2 by decide)).2.1 e (by decide)).mpr hno⟩

/-- `(0 - 2147483647 - 1) / -1`: the parser has read the parenthesis, and does not come back. -/
theorem parsing_traps :
    ¬ ∀ (line : Cells UInt8) (len p : Nat) (e : Eval), Line line len → p ≤ len →
      e.lex.cursor = textFrom line len p → ∃ r, ParseReturns e r := by
  intro h
  obtain ⟨r, hr, hdiv⟩ := h (lineOf (ascii "(0 - 2147483647 - 1) / -1")) 25 1
    ((Eval.start fun _ => []).scan (ascii "(0 - 2147483647 - 1) / -1")) ⟨by decide, rfl⟩
    (by decide) (by decide +kernel)
  have hdivs : (parseExpr ((Eval.start fun _ => []).scan
      (ascii "(0 - 2147483647 - 1) / -1"))).map (fun r => r.2.divs) =
        some [(BitVec.intMin 32, -1)] := by
    decide +kernel
  rw [hr] at hdivs
  have hlist : r.2.divs = [(BitVec.intMin 32, -1)] := Option.some.inj hdivs
  rw [Divided, DividedFrom, hlist] at hdiv
  exact (representable_iff (by decide)).mp (hdiv _ List.mem_cons_self) ⟨rfl, rfl⟩

end OsU
