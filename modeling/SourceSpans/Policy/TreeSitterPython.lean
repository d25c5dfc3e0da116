import SourceSpans.Policy.Table

/-!
# Rules for concrete Python trees

The kinds are the named nodes of the tree-sitter grammar for Python. Named nodes without children,
such as identifiers, numbers and strings, are found by their own text and need no rule; a kind that
is left out covers what its children cover.
-/

namespace SourceSpans.PolicyTable

open Pattern in
/-- The rules for the named nodes of the tree-sitter grammar for Python. -/
def treeSitterPython : PolicyTable where
  name := "tree-sitter-python"
  description? := some "tree-sitter-python named node kinds"
  kinds := [
    ("function_definition", { head := [[token "async"], [token "def"]] }),
    ("class_definition", { head := [[token "class"]] }),
    ("decorator", { lead := [[token "@"]] }),
    ("return_statement", { head := [[token "return"]] }),
    ("delete_statement", { head := [[token "del"]] }),
    ("assert_statement", { head := [[token "assert"]] }),
    ("raise_statement", { head := [[token "raise"]] }),
    ("global_statement", { head := [[token "global"]] }),
    ("nonlocal_statement", { head := [[token "nonlocal"]] }),
    ("import_statement", { head := [[token "import"]] }),
    ("import_from_statement", { head := [[token "from"]] }),
    ("if_statement", { head := [[token "if"]] }),
    ("elif_clause", { head := [[token "elif"]] }),
    ("else_clause", { head := [[token "else"]] }),
    ("for_statement", { head := [[token "async"], [token "for"]] }),
    ("while_statement", { head := [[token "while"]] }),
    ("with_statement", { head := [[token "async"], [token "with"]] }),
    ("try_statement", { head := [[token "try"]] }),
    ("except_clause", { head := [[token "except"]] }),
    ("finally_clause", { head := [[token "finally"]] }),
    ("match_statement", { head := [[token "match"]] }),
    ("case_clause", { head := [[token "case"]] }),
    ("type_alias_statement", { head := [[token "type"]] }),
    ("argument_list", { lead := [[token "("]] }),
    ("parameters", { lead := [[token "("]] }),
    ("parenthesized_expression", { lead := [[token "("]] }),
    ("tuple", { lead := [[token "("]] }),
    ("generator_expression", { lead := [[token "("]] }),
    ("list", { lead := [[token "["]] }),
    ("list_comprehension", { lead := [[token "["]] }),
    ("dictionary", { lead := [[token "\x7b"]] }),
    ("dictionary_comprehension", { lead := [[token "\x7b"]] }),
    ("set", { lead := [[token "\x7b"]] }),
    ("set_comprehension", { lead := [[token "\x7b"]] }),
    ("list_pattern", { lead := [[token "["]] }),
    ("tuple_pattern", { lead := [[token "("]] }),
    ("dict_pattern", { lead := [[token "\x7b"]] }),
    ("class_pattern", { trail := [[token "(", token ")"]] }),
    ("list_splat", { lead := [[token "*"]] }),
    ("list_splat_pattern", { lead := [[token "*"]] }),
    ("dictionary_splat", { lead := [[token "**"]] }),
    ("dictionary_splat_pattern", { lead := [[token "**"]] }),
    ("splat_pattern", { lead := [[token "*"], [token "**"]] }),
    ("unary_operator", { lead := [[token "-"], [token "+"], [token "~"]] }),
    ("not_operator", { lead := [[token "not"]] }),
    ("await", { lead := [[token "await"]] }),
    ("yield", { lead := [[token "yield", token "from"], [token "yield"]] }),
    ("lambda", { lead := [[token "lambda"], [token "lambda", token ":"]] }),
    ("for_in_clause", { lead := [[token "async", token "for"], [token "for"]] }),
    ("if_clause", { lead := [[token "if"]] }),
    ("slice", { lead := [[token ":", token ":"], [token ":"]], trail := [[token ":"]] }),
    ("expression_list", { trail := [[token ","]], reach := false }),
    ("pattern_list", { trail := [[token ","]], reach := false })]

end SourceSpans.PolicyTable
