import SourceSpans.Mark.Search

/-!
# How far a node reaches

What a node found of its own and the spans of its children are joined to one span, and this span is
extended: by the partners of the brackets in it, by the tokens that its rule wants before and after
it, and by parentheses around it.

`Marker.balance` works off a list of gaps, stretches of tokens that have not been looked at yet. A
bracket in a gap whose partner lies outside the span moves an end of the span, and what lies
between becomes another gap. Stretches that a child covers are passed over, and so are brackets
whose partner was claimed by a node further out.
-/

namespace SourceSpans.Marker

variable (m : Marker)

/-! ### Balance -/

/-- The first of several spans in order that ends at or after a token, if it holds the token. -/
def covering? (spans : List Span) (i : Nat) : Option Span :=
  (spans.find? fun s => i ≤ s.last).filter fun s => s.first ≤ i

theorem le_last_of_covering?_eq_some {spans : List Span} {i : Nat} {s : Span}
    (h : covering? spans i = some s) : i ≤ s.last := by
  have := List.find?_some (Option.filter_eq_some_iff.1 h).1
  simpa using this

/-- How much there is to look at in gaps, each from its first index up to its second. -/
def gapWork : List (Nat × Nat) → Nat
  | [] => 0
  | (i, stop) :: rest => 2 * (stop - i) + 1 + gapWork rest

/-- Extend a span by the partners of the brackets in gaps that no child covers. A partner before
`floor` is left alone. -/
def balanceFrom (floor : Nat) (children : List Span) (span : Span) :
    (gaps : List (Nat × Nat)) → Span
  | [] => span
  | (i, stop) :: gaps =>
      if stop ≤ i then balanceFrom floor children span gaps
      else match hc : covering? children i with
        | some c => balanceFrom floor children span ((c.last + 1, stop) :: gaps)
        | none =>
            match hp : m.partner? i with
            | none => balanceFrom floor children span ((i + 1, stop) :: gaps)
            | some p =>
                if span.last < p then
                  balanceFrom floor children ⟨span.first, p⟩
                    ((i + 1, stop) :: (span.last + 1, p + 1) :: gaps)
                else if p < span.first ∧ floor ≤ p then
                  balanceFrom floor children ⟨p, span.last⟩
                    ((i + 1, stop) :: (p, span.first) :: gaps)
                else balanceFrom floor children span ((i + 1, stop) :: gaps)
termination_by gaps => gapWork gaps + 2 * span.first + 2 * (m.size - span.last)
decreasing_by
  · simp only [gapWork]; omega
  · have := le_last_of_covering?_eq_some hc
    simp only [gapWork]; omega
  · simp only [gapWork]; omega
  · have := partner?_lt hp
    simp only [gapWork]; omega
  · simp only [gapWork]; omega
  · simp only [gapWork]; omega

/-- The gaps of a span in which a part has been looked at already, later ones first. -/
def gapsAround (scanned? : Option Span) (span : Span) : List (Nat × Nat) :=
  match scanned? with
  | none => [(span.first, span.last + 1)]
  | some s => [(s.last + 1, span.last + 1), (span.first, s.first)]

/-- Extend a span by the partners of the brackets in it that no child covers, as long as they lie
at or after `floor`. The brackets of the part that has been scanned have their partners in the
span. -/
def balance (floor : Nat) (children : List Span) (scanned? : Option Span) (span : Span) : Span :=
  m.balanceFrom floor children span (gapsAround scanned? span)

/-! ### Parentheses around a span -/

/-- A span with the pair of parentheses right around it, if the first lies at or after `floor`. -/
def parenAround? (floor : Nat) (span : Span) : Option Span :=
  (m.codingBefore? span.first floor).bind fun first =>
    (m.codingAfter? span.last).bind fun last =>
      if m.source.holdsAt (fun t => t.fits .op (some ['('])) first ∧ m.partner? first = some last
      then some ⟨first, last⟩ else none

theorem first_lt_of_parenAround?_eq_some {m : Marker} {floor : Nat} {span outer : Span}
    (h : m.parenAround? floor span = some outer) : outer.first < span.first := by
  obtain ⟨first, hfirst, h⟩ := Option.bind_eq_some_iff.1 h
  obtain ⟨last, -, h⟩ := Option.bind_eq_some_iff.1 h
  split at h
  · obtain rfl := Option.some.inj h
    exact codingBefore?_lt hfirst
  · simp at h

set_option linter.unusedVariables false in
/-- A span with every pair of parentheses around it whose first lies at or after `floor`. -/
def wrapAll (floor : Nat) (span : Span) : Span :=
  match h : m.parenAround? floor span with
  | none => span
  | some outer => wrapAll floor outer
termination_by span.first
decreasing_by
  have := first_lt_of_parenAround?_eq_some h
  omega

/-- A span with the parentheses around it that a node of its kind takes. -/
def wrapped (wrap : Wrap) (floor : Nat) (span : Span) : Span :=
  match wrap with
  | .none => span
  | .once => (m.parenAround? floor span).getD span
  | .all => m.wrapAll floor span

set_option linter.unusedVariables false in
/-- What an attempt finds for a span, or else for the span with ever more of the parentheses around
it if `reach` allows to look through them. -/
def reaching? (attempt : Span → Option Span) (floor : Nat) (reach : Bool) (span : Span) :
    Option Span :=
  match attempt span with
  | some found => some found
  | none =>
      if reach then
        match h : m.parenAround? floor span with
        | none => none
        | some outer => reaching? attempt floor reach outer
      else none
termination_by span.first
decreasing_by
  have := first_lt_of_parenAround?_eq_some h
  omega

/-! ### The whole extension -/

/-- A span extended to the left by the first of the rule's sequences that stands before it. -/
def leadOf? (r : Rule) (floor : Nat) (span : Span) : Option Span :=
  (r.lead.findSome? fun ps => m.leadAt? ps span.first floor).map fun first => ⟨first, span.last⟩

/-- A span extended to the right by the first of the rule's sequences that stands after it. -/
def trailOf? (r : Rule) (span : Span) : Option Span :=
  (r.trail.findSome? fun ps => m.trailAt? ps span).map fun last => ⟨span.first, last⟩

/-- A span with what its rule wants before it, if that is there. -/
def withLead (r : Rule) (floor : Nat) (span : Span) : Span :=
  if r.lead.isEmpty then span
  else (m.reaching? (m.leadOf? r floor) floor r.reach span).getD span

/-- A span with what its rule wants after it, if that is there. -/
def withTrail (r : Rule) (floor : Nat) (span : Span) : Span :=
  if r.trail.isEmpty then span
  else (m.reaching? (m.trailOf? r) floor r.reach span).getD span

/-- The span of a node, from the span of what it found and of its children. It takes no token
before `floor`. -/
def extend (rule? : Option Rule) (floor : Nat) (children : List Span) (span : Span) : Span :=
  let inner := m.balance floor children none span
  match rule? with
  | none => inner
  | some r =>
      m.balance floor children (some inner)
        (m.wrapped r.wrap floor (m.withTrail r floor (m.withLead r floor inner)))

end SourceSpans.Marker
