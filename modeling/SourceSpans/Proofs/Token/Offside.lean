import Mathlib.Data.List.DropRight
import SourceSpans.Proofs.Token.LogicalLines

/-!
# The offside rule

Blocks are open at the columns where logical lines begin (`Text.blocksAfter`): a line that begins on the
right of the innermost block opens a block, and another line closes the blocks on the right of it. It does
not fit if it then begins at the column of no block (`Text.Misfits`). A text cannot be read if and only if
one of its logical lines does not fit, and the first one that does not is reported; otherwise the layout
tokens before any coding token count the blocks that are open there (`tokenize_offside`).

* **Lines that do not fit** (`Layout.misfit?_eq_some`, `Layout.misfit?_eq_none_iff`): the first of them is
  found by settling the blocks line by line.
* **Failure** (`Layout.readAll_eq_error_iff`): reading fails at the first line that does not fit.
* **Success** (`Layout.Reads.atCode`): by each rule of reading, the blocks that are open at a coding token
  are those of the logical lines that have been opened (`Layout.Within`).
-/

namespace SourceSpans

namespace Layout

/-! ### Lines that do not fit -/

/-- The blocks that are open after logical lines that begin at the given places. -/
def settleAll (blocks : List Nat) (places : List Position) : List Nat :=
  places.foldl (fun blocks p => settle blocks p.col) blocks

/-- The logical line with an index begins at the column of no block. -/
def MisfitsAt (blocks : List Nat) (places : List Position) (n : Nat) : Prop :=
  ∃ p, places[n]? = some p ∧ (settleAll blocks (places.take (n + 1))).head? ≠ some p.col

/-- The first logical line that begins at the column of no block. -/
def misfit? : List Nat → List Position → Option Position
  | _, [] => none
  | blocks, p :: places =>
      if (settle blocks p.col).head? = some p.col then misfit? (settle blocks p.col) places
      else some p

variable {blocks : List Nat} {places : List Position} {p : Position} {n : Nat}

theorem settleAll_concat (blocks : List Nat) (places : List Position) (p : Position) :
    settleAll blocks (places ++ [p]) = settle (settleAll blocks places) p.col :=
  List.foldl_concat _ _ _ _

theorem misfitsAt_cons_zero :
    MisfitsAt blocks (p :: places) 0 ↔ (settle blocks p.col).head? ≠ some p.col := by
  refine ⟨?_, fun h => ⟨p, rfl, h⟩⟩
  rintro ⟨first, hfirst, h⟩
  obtain rfl := Option.some.inj hfirst
  exact h

theorem misfitsAt_cons_succ :
    MisfitsAt blocks (p :: places) (n + 1) ↔ MisfitsAt (settle blocks p.col) places n := Iff.rfl

theorem misfit?_eq_none_iff : misfit? blocks places = none ↔ ∀ n, ¬ MisfitsAt blocks places n := by
  induction places generalizing blocks with
  | nil => exact iff_of_true rfl fun n ⟨p, hp, _⟩ => nomatch hp
  | cons p places ih =>
    rw [misfit?]
    split_ifs with hfits
    · rw [ih]
      constructor
      · intro h n
        cases n with
        | zero => exact fun hzero => misfitsAt_cons_zero.1 hzero hfits
        | succ n => exact fun hsucc => h n (misfitsAt_cons_succ.1 hsucc)
      · intro h n hn
        exact h (n + 1) (misfitsAt_cons_succ.2 hn)
    · exact iff_of_false nofun fun h => h 0 (misfitsAt_cons_zero.2 hfits)

theorem misfit?_eq_some (h : misfit? blocks places = some p) :
    ∃ n, places[n]? = some p ∧ MisfitsAt blocks places n ∧ ∀ m < n, ¬ MisfitsAt blocks places m := by
  induction places generalizing blocks with
  | nil => cases h
  | cons first places ih =>
    rw [misfit?] at h
    split_ifs at h with hfits
    · obtain ⟨n, hp, hn, hbefore⟩ := ih h
      refine ⟨n + 1, hp, misfitsAt_cons_succ.2 hn, ?_⟩
      intro m hm
      cases m with
      | zero => exact fun hzero => misfitsAt_cons_zero.1 hzero hfits
      | succ m =>
        intro hsucc
        exact hbefore m (Nat.lt_of_succ_lt_succ hm) (misfitsAt_cons_succ.1 hsucc)
    · obtain rfl := Option.some.inj h
      exact ⟨0, rfl, misfitsAt_cons_zero.2 hfits, fun m hm => absurd hm (Nat.not_lt_zero m)⟩

/-! ### Failure -/

variable {lines : List Text} {s : Layout} {l : Lexeme} {ls : List Lexeme}

/-- A lexeme that opens no logical line is read, and neither the open blocks nor the logical lines to come
are other ones then. -/
theorem read_of_not_opens (hs : Coherent s) (hne : l.text ≠ [])
    (h : l.isCode = true → s.hasCode = true) (lines : List Text) (ls : List Lexeme) :
    ∃ tokens s', read lines l s = .ok (tokens, s') ∧ Coherent s' ∧ s'.indents = s.indents ∧
      s.openingsFrom (l :: ls) = s'.openingsFrom ls := by
  cases hl : l.isCode with
  | true =>
    have hcode := h hl
    rw [read_of_isCode hl hne, hs.marksBefore_of_hasCode hcode]
    exact ⟨_, _, rfl, .afterCode hs.nested s l, rfl, openingsFrom_cons_of_goesOn hl hcode ls⟩
  | false =>
    by_cases hends : l.cls = .lineBreak ∧ s.depth = 0 ∧ s.hasCode = true
    · obtain ⟨hcls, hdepth, hcode⟩ := hends
      have hread : read lines l s =
          .ok ([tokenAt lines .newline s.place l.text], s.endLine l.text) := by
        simp only [read, hcls, Coherent.lineBreak_of_ends hdepth hcode]
      exact ⟨_, _, hread, hs.endLine hdepth l.text, rfl,
        openingsFrom_cons_of_ends hcls hdepth hcode ls⟩
    · have hstays : l.cls = .lineBreak → s.depth = 0 → s.hasCode = false := by
        intro hcls hdepth
        rw [← Bool.not_eq_true]
        exact fun hcode => hends ⟨hcls, hdepth, hcode⟩
      have hread : ∃ tokens, read lines l s = .ok (tokens, s.pass l.text) := by
        rcases cls_cases l with hcls | hcls | hcls | hcode
        · exact ⟨_, by simp only [read, hcls]; rfl⟩
        · exact ⟨_, by simp only [read, hcls]; rfl⟩
        · exact ⟨_, by simp only [read, hcls, hs.lineBreak_of_not_ends (hstays hcls)]; rfl⟩
        · rw [hl] at hcode
          cases hcode
      obtain ⟨tokens, hread⟩ := hread
      exact ⟨tokens, _, hread, hs.pass l.text, rfl, openingsFrom_cons_of_not_isCode hl hstays ls⟩

theorem readAll_cons_eq_error_iff {tokens : List RawToken} {s' : Layout} {e : TokenizeError}
    (h : read lines l s = .ok (tokens, s')) :
    readAll lines (l :: ls) s = .error e ↔ readAll lines ls s' = .error e := by
  rw [readAll_cons, h]
  show (readAll lines ls s').bind _ = _ ↔ _
  constructor
  · intro herror
    rcases bind_eq_error herror with hrest | ⟨others, -, hothers⟩
    · exact hrest
    · cases hothers
  · intro hrest
    rw [hrest]
    rfl

/-- **Reading fails at the first logical line that does not fit.** -/
theorem readAll_eq_error_iff {e : TokenizeError} (hs : Coherent s) (hls : ∀ l ∈ ls, l.text ≠ []) :
    readAll lines ls s = .error e ↔
      ∃ p, misfit? s.indents (s.openingsFrom ls) = some p ∧ e = .dedent p.line := by
  induction ls generalizing s with
  | nil =>
    rw [openingsFrom_nil]
    exact iff_of_false nofun fun ⟨p, hp, _⟩ => nomatch hp
  | cons l ls ih =>
    rw [List.forall_mem_cons] at hls
    by_cases hopens : l.isCode = true → s.hasCode = true
    · obtain ⟨tokens, s', hread, hs', hindents, hopenings⟩ :=
        read_of_not_opens hs hls.1 hopens lines ls
      rw [readAll_cons_eq_error_iff hread, ih hs' hls.2, hindents, hopenings]
    · rw [Classical.not_imp, Bool.not_eq_true] at hopens
      obtain ⟨hl, hcode⟩ := hopens
      have hread := read_of_isCode hl hls.1 lines s
      rw [hs.marksBefore_of_not_hasCode hcode] at hread
      rw [openingsFrom_cons_of_opens hl hcode (settle s.indents s.place.col), misfit?]
      cases hmarks : indentTo lines s with
      | error e' =>
        obtain ⟨hfits, rfl⟩ := (indentTo_eq_error_iff hs.nested).1 hmarks
        rw [hmarks] at hread
        rw [if_neg hfits, readAll_cons, hread]
        show Except.error (TokenizeError.dedent s.place.line) = .error e ↔ _
        simp [eq_comm]
      | ok r =>
        obtain ⟨marks, indents⟩ := r
        obtain ⟨rfl, hfits, -⟩ := indentTo_eq_ok hs.nested hmarks
        rw [hmarks] at hread
        rw [if_pos hfits, readAll_cons_eq_error_iff hread,
          ih (.afterCode (hs.nested.settle _) s l) hls.2]
        rfl

/-! ### Success -/

/-- The first coding token of the logical line that tokens end in, if it has one already: the first one
after the last `NEWLINE`. -/
def lineOpener? (tokens : List RawToken) : Option RawToken :=
  (tokens.rtakeWhile (·.kind != .newline)).find? (·.kind.isCode)

variable {past tokens marks : List RawToken} {opened : List Position} {indents : List Nat} {a : RawToken}

theorem lineOpener?_concat (h : a.kind ≠ .newline) :
    lineOpener? (past ++ [a]) =
      (lineOpener? past).or (if a.kind.isCode = true then some a else none) := by
  rw [lineOpener?, List.rtakeWhile_concat_pos _ _ _ (by simpa using h), List.find?_append,
    List.find?_singleton, lineOpener?]

theorem lineOpener?_concat_newline (h : a.kind = .newline) : lineOpener? (past ++ [a]) = none := by
  rw [lineOpener?, List.rtakeWhile_concat_neg _ _ _ (by simpa using h), List.find?_nil]

/-- The layout tokens before a logical line do not open it. -/
theorem lineOpener?_append_marks (h : indentTo lines s = .ok (marks, indents)) :
    lineOpener? (past ++ marks) = lineOpener? past := by
  have hmarks : ∀ a ∈ marks, a.kind.isBlockMark = true := fun _ => isBlockMark_of_mem_marks h
  clear h
  induction marks generalizing past with
  | nil => rw [List.append_nil]
  | cons a marks ih =>
    rw [List.forall_mem_cons] at hmarks
    have hnewline : a.kind ≠ .newline := fun hkind => by
      rw [hkind] at hmarks
      cases hmarks.1
    rw [List.append_cons, ih hmarks.2, lineOpener?_concat hnewline,
      TokenKind.isCode_of_isBlockMark hmarks.1]
    exact Option.or_none

/-- The tokens so far and the logical lines that they open account for the open blocks. -/
structure Accounts (past : List RawToken) (opened : List Position) (blocks : List Nat) : Prop where
  settled : settleAll [0] opened = blocks
  balance : (kinds past).count .indent + 1 = (kinds past).count .dedent + blocks.length

/-- The tokens so far end between logical lines. -/
structure Between (past : List RawToken) (opened : List Position) (blocks : List Nat) : Prop
    extends Accounts past opened blocks where
  ended : (kinds past).count .newline = opened.length
  lineOpener?_eq : lineOpener? past = none

/-- The tokens so far end within a logical line, the last one of those that are opened. -/
structure Within (past : List RawToken) (opened : List Position) (blocks : List Nat) : Prop
    extends Accounts past opened blocks where
  ended : (kinds past).count .newline + 1 = opened.length
  exists_lineOpener : ∃ first, lineOpener? past = some first ∧ opened.getLast? = some first.start ∧
    blocks.head? = some first.start.col

theorem count_kinds_concat {k : TokenKind} (h : a.kind ≠ k) :
    (kinds (past ++ [a])).count k = (kinds past).count k := by
  rw [kinds_append, List.count_append, Nat.add_eq_left, List.count_eq_zero]
  intro hmem
  exact h (List.mem_singleton.1 hmem).symm

theorem Accounts.concat (h : Accounts past opened blocks) (hmark : a.kind.isBlockMark = false) :
    Accounts (past ++ [a]) opened blocks := by
  have hindent : a.kind ≠ .indent := fun hkind => by rw [hkind] at hmark; cases hmark
  have hdedent : a.kind ≠ .dedent := fun hkind => by rw [hkind] at hmark; cases hmark
  refine ⟨h.settled, ?_⟩
  rw [count_kinds_concat hindent, count_kinds_concat hdedent]
  exact h.balance

/-- The layout tokens before a logical line account for the blocks that it opens or closes. -/
theorem Accounts.balance_append_marks (h : Accounts past opened s.indents) (hs : Nested s.indents)
    (hmarks : indentTo lines s = .ok (marks, indents)) :
    (kinds (past ++ marks)).count .indent + 1 =
      (kinds (past ++ marks)).count .dedent + indents.length := by
  have hbalance := h.balance
  rw [kinds_append, List.count_append, List.count_append]
  rcases kinds_marks hs hmarks with ⟨hkinds, hlength⟩ | ⟨n, hkinds, hlength⟩
  · rw [hkinds]
    simp
    omega
  · rw [hkinds, List.count_replicate, List.count_replicate]
    simp
    omega

/-- What neither marks a block nor ends the logical line goes on with it. -/
theorem Within.concat (h : Within past opened blocks) (hnewline : a.kind ≠ .newline)
    (hmark : a.kind.isBlockMark = false) : Within (past ++ [a]) opened blocks := by
  obtain ⟨first, hfirst, hstart⟩ := h.exists_lineOpener
  refine ⟨h.toAccounts.concat hmark, ?_, first, ?_, hstart⟩
  · rw [count_kinds_concat hnewline]
    exact h.ended
  · rw [lineOpener?_concat hnewline, hfirst, Option.some_or]

/-- A `NEWLINE` ends the logical line. -/
theorem Within.newline (h : Within past opened blocks) (hkind : a.kind = .newline) :
    Between (past ++ [a]) opened blocks := by
  refine ⟨h.toAccounts.concat (by rw [hkind]; rfl), ?_, lineOpener?_concat_newline hkind⟩
  rw [kinds_append, List.count_append, ← h.ended, kinds_cons, hkind]
  rfl

/-- What neither marks a block nor is code stays between logical lines. -/
theorem Between.concat (h : Between past opened blocks) (hnewline : a.kind ≠ .newline)
    (hmark : a.kind.isBlockMark = false) (hcode : a.kind.isCode = false) :
    Between (past ++ [a]) opened blocks := by
  refine ⟨h.toAccounts.concat hmark, ?_, ?_⟩
  · rw [count_kinds_concat hnewline]
    exact h.ended
  · rw [lineOpener?_concat hnewline, h.lineOpener?_eq, hcode]
    rfl

theorem concat_of_extra {c : Bool}
    (h : if c then Within past opened blocks else Between past opened blocks)
    (hnewline : a.kind ≠ .newline) (hmark : a.kind.isBlockMark = false)
    (hcode : a.kind.isCode = false) :
    if c then Within (past ++ [a]) opened blocks else Between (past ++ [a]) opened blocks := by
  cases c with
  | false => exact Between.concat h hnewline hmark hcode
  | true => exact Within.concat h hnewline hmark

/-- A coding token with the layout tokens before it opens a logical line. -/
theorem Between.opens (h : Between past opened s.indents) (hs : Nested s.indents)
    (hmarks : indentTo lines s = .ok (marks, indents)) (hcode : a.kind.isCode = true)
    (hstart : a.start = s.place) : Within (past ++ marks ++ [a]) (opened ++ [s.place]) indents := by
  have hnewline : a.kind ≠ .newline := TokenKind.ne_newline_of_isCode hcode
  obtain ⟨hindents, hhead, -⟩ := indentTo_eq_ok hs hmarks
  have haccounts : Accounts (past ++ marks) (opened ++ [s.place]) indents := by
    refine ⟨?_, h.balance_append_marks hs hmarks⟩
    rw [settleAll_concat, h.settled, hindents]
  refine ⟨haccounts.concat (TokenKind.isBlockMark_of_isCode hcode), ?_, a, ?_, ?_, ?_⟩
  · rw [count_kinds_concat hnewline, kinds_append, List.count_append, count_marks rfl hmarks,
      h.ended, List.length_append]
    rfl
  · rw [lineOpener?_concat hnewline, lineOpener?_append_marks hmarks, h.lineOpener?_eq, hcode]
    rfl
  · rw [List.getLast?_concat, hstart]
  · rw [hhead, hstart]

/-- Something holds of the tokens up to each coding token, where there are others before. -/
def AtCode (holds : List RawToken → Prop) (past : List RawToken) : List RawToken → Prop
  | [] => True
  | a :: rest => (a.kind.isCode = true → holds (past ++ [a])) ∧ AtCode holds (past ++ [a]) rest

section AtCode

variable {holds : List RawToken → Prop} {ts : List RawToken}

theorem atCode_append :
    AtCode holds past (ts ++ tokens) ↔ AtCode holds past ts ∧ AtCode holds (past ++ ts) tokens := by
  induction ts generalizing past with
  | nil => simp [AtCode]
  | cons a ts ih => rw [List.cons_append, AtCode, ih, AtCode, and_assoc, ← List.append_cons]

theorem AtCode.of_split {front back : List RawToken} (h : AtCode holds past (front ++ a :: back))
    (hcode : a.kind.isCode = true) : holds (past ++ front ++ [a]) :=
  (atCode_append.1 h).2.1 hcode

theorem atCode_of_not_isCode (h : ∀ a ∈ tokens, a.kind.isCode = false) : AtCode holds past tokens := by
  induction tokens generalizing past with
  | nil => trivial
  | cons a tokens ih =>
    rw [List.forall_mem_cons] at h
    refine ⟨?_, ih h.2⟩
    intro hcode
    rw [h.1] at hcode
    cases hcode

theorem isCode_of_mem_finish (h : a ∈ finish lines s) : a.kind.isCode = false := by
  rw [finish, List.mem_append, List.mem_append] at h
  rcases h with (h | h) | h
  · split_ifs at h
    · rw [List.mem_singleton.1 h]
      rfl
    · cases h
  · rw [List.eq_of_mem_replicate h]
    rfl
  · rw [List.mem_singleton.1 h]
    rfl

/-- Within a logical line, each coding token goes on with it. -/
theorem Within.atCode (h : Within past opened blocks) (hcode : ∀ a ∈ ts, a.kind.isCode = true)
    (hholds : ∀ upto, Within upto opened blocks → holds upto) :
    AtCode holds past ts ∧ Within (past ++ ts) opened blocks := by
  induction ts generalizing past with
  | nil =>
    rw [List.append_nil]
    exact ⟨trivial, h⟩
  | cons a ts ih =>
    rw [List.forall_mem_cons] at hcode
    have hnext : Within (past ++ [a]) opened blocks :=
      h.concat (TokenKind.ne_newline_of_isCode hcode.1) (TokenKind.isBlockMark_of_isCode hcode.1)
    obtain ⟨hrest, hend⟩ := ih hnext hcode.2
    rw [List.append_cons]
    exact ⟨⟨fun _ => hholds _ hnext, hrest⟩, hend⟩

end AtCode

/-- The open blocks at the end of the tokens so far are those of some of the logical lines. -/
def Settled (all : List Position) (upto : List RawToken) : Prop :=
  ∃ opened blocks, opened <+: all ∧ Nested blocks ∧ Within upto opened blocks

/-- **By each rule of reading, the logical lines that have been opened settle the open blocks.** -/
theorem Reads.atCode {all : List Position} (h : Reads lines s ls tokens) (hs : Nested s.indents)
    (hall : opened ++ s.openingsFrom ls = all)
    (hpast : if s.hasCode then Within past opened s.indents else Between past opened s.indents) :
    AtCode (Settled all) past tokens := by
  induction h generalizing past opened with
  | finish s => exact atCode_of_not_isCode fun _ => isCode_of_mem_finish
  | gap hcls _ ih =>
    rw [openingsFrom_cons_of_gap_or_comment (Or.inl hcls)] at hall
    exact ih hs hall hpast
  | comment hcls _ ih =>
    rw [openingsFrom_cons_of_gap_or_comment (Or.inr hcls)] at hall
    exact ⟨nofun, ih hs hall (concat_of_extra hpast nofun rfl rfl)⟩
  | newline hcls hdepth hcode _ ih =>
    rw [openingsFrom_cons_of_ends hcls hdepth hcode] at hall
    rw [if_pos hcode] at hpast
    exact ⟨nofun, ih hs hall (hpast.newline rfl)⟩
  | nl hcls hends _ ih =>
    rw [openingsFrom_cons_of_not_ends hcls hends] at hall
    exact ⟨nofun, ih hs hall (concat_of_extra hpast nofun rfl rfl)⟩
  | @opens s l ls marks tokens indents hl hne hcode hmarks _ ih =>
    have hnested : Nested indents := hs.of_indentTo hmarks
    rw [openingsFrom_cons_of_opens hl hcode indents, List.append_cons] at hall
    rw [hcode] at hpast
    obtain ⟨a, rest, hcodes, hstart⟩ := exists_codeTokens_eq_cons hl hne lines s.place
    have hkinds : ∀ b ∈ a :: rest, b.kind.isCode = true := by
      rw [← hcodes]
      exact fun b => isCode_of_mem_codeTokens
    rw [List.forall_mem_cons] at hkinds
    have hwithin := Between.opens hpast hs hmarks hkinds.1 hstart
    have hsettled : ∀ upto, Within upto (opened ++ [s.place]) indents → Settled all upto :=
      fun upto h => ⟨_, _, ⟨_, hall⟩, hnested, h⟩
    obtain ⟨hrest, hend⟩ := hwithin.atCode hkinds.2 hsettled
    have hmarksCode : AtCode (Settled all) past marks :=
      atCode_of_not_isCode fun _ ha => TokenKind.isCode_of_isBlockMark (isBlockMark_of_mem_marks hmarks ha)
    rw [hcodes, List.append_assoc, atCode_append]
    refine ⟨hmarksCode, fun _ => hsettled _ hwithin, ?_⟩
    exact atCode_append.2 ⟨hrest, ih hnested hall hend⟩
  | @code s l ls tokens hl hne hcode _ ih =>
    rw [openingsFrom_cons_of_goesOn hl hcode] at hall
    rw [if_pos hcode] at hpast
    have hsettled : ∀ upto, Within upto opened s.indents → Settled all upto :=
      fun upto h => ⟨_, _, ⟨_, hall⟩, hs, h⟩
    obtain ⟨hcodes, hend⟩ := hpast.atCode (fun _ => isCode_of_mem_codeTokens) hsettled
    exact atCode_append.2 ⟨hcodes, ih hs hall hend⟩

theorem between_nil : Between [] [] [0] := ⟨⟨rfl, rfl⟩, rfl, rfl⟩

/-- The logical line that tokens end in is counted by the `NEWLINE`s of the ones before it. -/
theorem Settled.exists_line {all : List Position} {upto : List RawToken} (h : Settled all upto) :
    ∃ n blocks first, (kinds upto).count .newline = n ∧ settleAll [0] (all.take (n + 1)) = blocks ∧
      Nested blocks ∧ lineOpener? upto = some first ∧ all[n]? = some first.start ∧
      blocks.head? = some first.start.col ∧
      (kinds upto).count .indent + 1 = (kinds upto).count .dedent + blocks.length := by
  obtain ⟨opened, blocks, hopened, hnested, hwithin⟩ := h
  obtain ⟨first, hfirst, hlast, hhead⟩ := hwithin.exists_lineOpener
  have htake : opened = all.take ((kinds upto).count .newline + 1) := by
    rw [hwithin.ended]
    exact List.prefix_iff_eq_take.1 hopened
  refine ⟨_, blocks, first, rfl, ?_, hnested, hfirst, ?_, hhead, hwithin.balance⟩
  · rw [← htake]
    exact hwithin.settled
  · rw [List.getLast?_eq_getElem?, ← hwithin.ended, htake, Nat.add_sub_cancel] at hlast
    rwa [List.getElem?_take_of_lt (Nat.lt_succ_self _)] at hlast

end Layout

namespace Text

/-- The columns of the blocks that are open after the first logical lines of a text, innermost first: one
block for the whole text at first, then settled by one line after the other. -/
def blocksAfter (t : Text) (n : Nat) : List Nat := Layout.settleAll [0] (t.openings.take n)

/-- A logical line of a text begins at the column of no block. -/
def Misfits (t : Text) (n : Nat) : Prop :=
  ∃ p, t.openings[n]? = some p ∧ (t.blocksAfter (n + 1)).head? ≠ some p.col

instance (t : Text) (n : Nat) : Decidable (t.Misfits n) :=
  inferInstanceAs (Decidable (∃ p ∈ t.openings[n]?, (t.blocksAfter (n + 1)).head? ≠ some p.col))

variable {t : Text}

theorem tokenize_eq_error_iff {e : TokenizeError} :
    tokenize t = .error e ↔
      ∃ p, Layout.misfit? [0] t.openings = some p ∧ e = .dedent p.line := by
  rw [← Layout.openingsFrom_initial]
  exact Layout.readAll_eq_error_iff Layout.coherent_initial fun _ => text_ne_nil_of_mem_lexemes

theorem tokenize_fails_iff : (∃ e, tokenize t = .error e) ↔ ∃ n, t.Misfits n := by
  constructor
  · rintro ⟨e, he⟩
    obtain ⟨p, hp, -⟩ := tokenize_eq_error_iff.1 he
    obtain ⟨n, -, hn, -⟩ := Layout.misfit?_eq_some hp
    exact ⟨n, hn⟩
  · rintro ⟨n, hn⟩
    cases hp : Layout.misfit? [0] t.openings with
    | none => exact absurd hn (Layout.misfit?_eq_none_iff.1 hp n)
    | some p => exact ⟨_, tokenize_eq_error_iff.2 ⟨p, hp, rfl⟩⟩

/-- The first logical line that does not fit is the one that is reported. -/
theorem tokenize_of_misfits {n : Nat} {p : Position} (hp : t.openings[n]? = some p)
    (hn : t.Misfits n) (hbefore : ∀ m < n, ¬ t.Misfits m) : tokenize t = .error (.dedent p.line) := by
  obtain ⟨e, he⟩ := tokenize_fails_iff.2 ⟨n, hn⟩
  obtain ⟨first, hfirst, rfl⟩ := tokenize_eq_error_iff.1 he
  obtain ⟨k, hk, hmisfits, hleast⟩ := Layout.misfit?_eq_some hfirst
  obtain rfl : n = k := by
    rcases Nat.lt_trichotomy n k with hlt | heq | hlt
    · exact absurd hn (hleast n hlt)
    · exact heq
    · exact absurd hmisfits (hbefore k hlt)
  rw [hp] at hk
  obtain rfl := Option.some.inj hk
  exact he

/-- The open blocks at a coding token are settled by the logical lines up to the one of the token. -/
theorem settled_of_tokenize {raw front back : List RawToken} {a : RawToken} (h : tokenize t = .ok raw)
    (hraw : raw = front ++ a :: back) (hcode : a.kind.isCode = true) :
    Layout.Settled t.openings (front ++ [a]) := by
  have hcodes : Layout.AtCode (Layout.Settled t.openings) [] raw :=
    (reads_of_tokenize h).atCode Layout.nested_zero (Layout.openingsFrom_initial t) Layout.between_nil
  rw [hraw] at hcodes
  exact hcodes.of_split hcode

end Text

/-- **Indentation follows the offside rule.** A text cannot be read if and only if one of its logical lines
begins at the column of no block, and the line of the first one that does is reported. Otherwise, at each
coding token the blocks that are open are those which the logical lines settle up to the one of the token:
there are as many as the `INDENT`s before the token and one more, less the `DEDENT`s, each lies within the
next, the last is that of the whole text, and the innermost begins where the first coding token of the
logical line does. -/
theorem tokenize_offside (t : Text) :
    ((∃ e, tokenize t = .error e) ↔ ∃ n, t.Misfits n) ∧
      (∀ n p, t.openings[n]? = some p → t.Misfits n → (∀ m < n, ¬ t.Misfits m) →
        tokenize t = .error (.dedent p.line)) ∧
      ∀ raw, tokenize t = .ok raw → ∀ front a back, raw = front ++ a :: back → a.kind.isCode = true →
        ∃ n blocks first, (Layout.kinds front).count .newline = n ∧ t.blocksAfter (n + 1) = blocks ∧
          ((Layout.kinds front).count .indent : Int) - (Layout.kinds front).count .dedent =
            blocks.length - 1 ∧
          blocks.Pairwise (· > ·) ∧ blocks.getLast? = some 0 ∧
          Layout.lineOpener? (front ++ [a]) = some first ∧ t.openings[n]? = some first.start ∧
          blocks.head? = some first.start.col := by
  refine ⟨Text.tokenize_fails_iff, fun n p => Text.tokenize_of_misfits, ?_⟩
  intro raw h front a back hraw hcode
  obtain ⟨n, blocks, first, hn, hblocks, hnested, hfirst, hstart, hhead, hbalance⟩ :=
    (Text.settled_of_tokenize h hraw hcode).exists_line
  have hcount : ∀ k : TokenKind, k.isCode = false →
      (Layout.kinds (front ++ [a])).count k = (Layout.kinds front).count k := by
    intro k hk
    refine Layout.count_kinds_concat ?_
    rintro rfl
    rw [hk] at hcode
    cases hcode
  rw [hcount _ rfl] at hn
  rw [hcount _ rfl, hcount _ rfl] at hbalance
  refine ⟨n, blocks, first, hn, hblocks, ?_, hnested.decreasing, hnested.bottom, hfirst, hstart, hhead⟩
  omega

/-- The third line goes back to a column between those of the lines before it. -/
def misfitText : Text := "if x:\n    y\n  z\n".toList

/-- The second logical line goes on in the third physical one. -/
def wrappedText : Text := "if x:\n  y(\nz)\nw".toList

/-- The tokens of `wrappedText`. -/
def wrappedTokens : List RawToken :=
  let first := "if x:\n".toList
  let second := "  y(\n".toList
  let third := "z)\n".toList
  let fourth := "w".toList
  [⟨.name, "if".toList, ⟨1, 0⟩, ⟨1, 2⟩, first⟩,
    ⟨.name, "x".toList, ⟨1, 3⟩, ⟨1, 4⟩, first⟩,
    ⟨.op, ":".toList, ⟨1, 4⟩, ⟨1, 5⟩, first⟩,
    ⟨.newline, "\n".toList, ⟨1, 5⟩, ⟨2, 0⟩, first⟩,
    ⟨.indent, "  ".toList, ⟨2, 0⟩, ⟨2, 2⟩, second⟩,
    ⟨.name, "y".toList, ⟨2, 2⟩, ⟨2, 3⟩, second⟩,
    ⟨.op, "(".toList, ⟨2, 3⟩, ⟨2, 4⟩, second⟩,
    ⟨.nl, "\n".toList, ⟨2, 4⟩, ⟨3, 0⟩, second⟩,
    ⟨.name, "z".toList, ⟨3, 0⟩, ⟨3, 1⟩, third⟩,
    ⟨.op, ")".toList, ⟨3, 1⟩, ⟨3, 2⟩, third⟩,
    ⟨.newline, "\n".toList, ⟨3, 2⟩, ⟨4, 0⟩, third⟩,
    ⟨.dedent, [], ⟨4, 0⟩, ⟨4, 0⟩, fourth⟩,
    ⟨.name, "w".toList, ⟨4, 0⟩, ⟨4, 1⟩, fourth⟩,
    ⟨.newline, [], ⟨4, 1⟩, ⟨4, 1⟩, fourth⟩,
    ⟨.endMarker, [], ⟨4, 1⟩, ⟨4, 1⟩, fourth⟩]

/-- The token `z` stands in the second logical line, which `y` opens two columns in. -/
theorem tokenize_offside_wrappedText :
    tokenize misfitText = .error (.dedent 3) ∧ tokenize wrappedText = .ok wrappedTokens ∧
      (Layout.kinds (wrappedTokens.take 8)).count .newline = 1 ∧
      wrappedText.blocksAfter 2 = [2, 0] ∧
      ((Layout.kinds (wrappedTokens.take 8)).count .indent : Int) -
          (Layout.kinds (wrappedTokens.take 8)).count .dedent = 1 ∧
      Layout.lineOpener? (wrappedTokens.take 9) =
        some ⟨.name, "y".toList, ⟨2, 2⟩, ⟨2, 3⟩, "  y(\n".toList⟩ ∧
      wrappedText.openings[1]? = some ⟨2, 2⟩ := by
  have hplace : misfitText.openings[2]? = some ⟨3, 2⟩ := by decide +kernel
  have hmisfits : misfitText.Misfits 2 := by decide +kernel
  have hbefore : ∀ m < 2, ¬ misfitText.Misfits m := by decide +kernel
  have hcall : tokenize wrappedText = .ok wrappedTokens := by decide +kernel
  have hlines : (Layout.kinds (wrappedTokens.take 8)).count .newline = 1 := by decide
  have hblocks : wrappedText.blocksAfter 2 = [2, 0] := by decide +kernel
  have hopener : Layout.lineOpener? (wrappedTokens.take 9) =
      some ⟨.name, "y".toList, ⟨2, 2⟩, ⟨2, 3⟩, "  y(\n".toList⟩ := by decide
  obtain ⟨n, blocks, first, hn, hafter, hbalance, -, -, hfirst, hopening, -⟩ :=
    (tokenize_offside wrappedText).2.2 wrappedTokens hcall (wrappedTokens.take 8)
      ⟨.name, "z".toList, ⟨3, 0⟩, ⟨3, 1⟩, "z)\n".toList⟩ (wrappedTokens.drop 9) rfl rfl
  obtain rfl : n = 1 := hn.symm.trans hlines
  obtain rfl : blocks = [2, 0] := hafter.symm.trans hblocks
  obtain rfl := Option.some.inj (hfirst.symm.trans hopener)
  exact ⟨(tokenize_offside misfitText).2.1 2 ⟨3, 2⟩ hplace hmisfits hbefore, hcall, hlines, hblocks,
    hbalance, hopener, hopening⟩

end SourceSpans
