import SourceSpans.Policy.Table

/-!
# Rules for Python syntax trees

The kinds are the classes of Python's abstract syntax. The names of definitions, modules and
captures are no nodes there, so the rules claim the tokens of these names. A kind that is left out
covers what its children cover.
-/

namespace SourceSpans.PolicyTable

open Pattern in
/-- The rules for trees of Python's abstract syntax. -/
def pythonAst : PolicyTable where
  name := "python-ast"
  description? := some "Python ast module node kinds"
  kinds := [
    ("FunctionDef",
      { head := [[token "@"], [token "def", anyName]]
        intro := [[token "def", anyName]] }),
    ("AsyncFunctionDef",
      { head := [[token "@"], [token "async", token "def", anyName]]
        intro := [[token "async", token "def", anyName]] }),
    ("ClassDef",
      { head := [[token "@"], [token "class", anyName]]
        intro := [[token "class", anyName]] }),
    ("Return", { head := [[token "return"]] }),
    ("Delete", { head := [[token "del"]] }),
    ("Assert", { head := [[token "assert"]] }),
    ("Raise", { head := [[token "raise"]] }),
    ("Pass", { head := [[token "pass"]] }),
    ("Break", { head := [[token "break"]] }),
    ("Continue", { head := [[token "continue"]] }),
    ("Import", { head := [[token "import"]] }),
    ("ImportFrom", { head := [[token "from", skip, token "import"]] }),
    ("If", { head := [[token "if"], [token "elif"]] }),
    ("For", { head := [[token "for"]] }),
    ("AsyncFor", { head := [[token "async"]] }),
    ("While", { head := [[token "while"]] }),
    ("With", { head := [[token "with"]] }),
    ("AsyncWith", { head := [[token "async"]] }),
    ("Try", { head := [[token "try"]] }),
    ("TryStar", { head := [[token "try"]] }),
    ("ExceptHandler", { head := [[token "except"]] }),
    ("Match", { head := [[token "match"]] }),
    ("match_case", { head := [[token "case"]] }),
    ("MatchAs", { trail := [[token "as", anyName]] }),
    ("MatchSequence",
      { lead := [[token "["], [token "("]]
        empty := [[token "[", token "]"], [token "(", token ")"]] }),
    ("MatchMapping",
      { lead := [[token "\x7b"]]
        trail := [[token ",", token "**", anyName]]
        empty :=
          [[token "\x7b", token "**", anyName, token "\x7d"], [token "\x7b", token "\x7d"]] }),
    ("MatchClass", { trail := [[token "(", token ")"]] }),
    ("TypeAlias", { head := [[token "type"]] }),
    ("Expr", { wrap := .all }),
    ("Attribute", { trail := [[token ".", anyName]] }),
    ("Call", { trail := [[token "(", token ")"]] }),
    ("keyword", { head := [[anyName, token "="], [token "**"]] }),
    ("Starred", { lead := [[token "*"]] }),
    ("UnaryOp", { lead := [[token "not"], [token "-"], [token "+"], [token "~"]] }),
    ("Await", { lead := [[token "await"]] }),
    ("Yield", { lead := [[token "yield"]], empty := [[token "yield"]] }),
    ("YieldFrom", { lead := [[token "yield", token "from"]] }),
    ("Lambda", { lead := [[token "lambda"], [token "lambda", token ":"]] }),
    ("arguments", { lead := [[token "*"], [token "**"]] }),
    ("arg", { lead := [[anyName, token ":"]] }),
    ("alias", { trail := [[token "as", anyName]] }),
    ("List", { lead := [[token "["]], empty := [[token "[", token "]"]] }),
    ("ListComp", { lead := [[token "["]] }),
    ("Tuple",
      { trail := [[token ","]]
        empty := [[token "(", token ")"]]
        wrap := .once
        reach := false }),
    ("Set", { lead := [[token "\x7b"]] }),
    ("SetComp", { lead := [[token "\x7b"]] }),
    ("Dict",
      { lead := [[token "\x7b", token "**"], [token "\x7b"]]
        empty := [[token "\x7b", token "\x7d"]] }),
    ("DictComp", { lead := [[token "\x7b"]] }),
    ("GeneratorExp", { wrap := .once }),
    ("comprehension", { lead := [[token "async", token "for"], [token "for"]] }),
    ("Slice",
      { lead := [[token ":", token ":"], [token ":"]]
        trail := [[token ":"]]
        empty := [[token ":"]] })]

end SourceSpans.PolicyTable
