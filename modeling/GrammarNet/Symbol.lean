/-!
# Symbols

Symbols of a vocabulary, and the four values that mark something else than a symbol of the user.
-/

namespace GrammarNet

/-- A symbol is an integer: a token type in a parser network, a character in a lexer network. -/
abbrev Symbol := Int

namespace Symbol

/-- The mark of a path that ends without consuming anything. -/
def epsilon : Symbol := -2

/-- The symbol that stands for the end of the input. -/
def endOfInput : Symbol := -1

/-- The value that no token has. Lookahead uses it as the mark of a predicate. -/
def invalid : Symbol := 0

/-- The smallest symbol that a vocabulary may define. -/
def firstUser : Symbol := 1

end Symbol

end GrammarNet
