/-!
# The standard prelude

Functions that every session has unless it asks for none, in the language
itself.
-/

namespace DynLisp

/-- The source of the standard prelude.  Every form is parenthesized, so that
the text reads as a sequence of forms. -/
def standardPrelude : String :=
  "; Standard prelude, evaluated by Interpreter(prelude='auto').\n"
    ++ "; Every top-level form is parenthesized so the file reads as a sequence.\n"
    ++ "\n"
    ++ "(fn inc n (+ n 1))\n"
    ++ "(fn dec n (- n 1))\n"
    ++ "\n"
    ++ "(fn sum xs (foldl (\\ (acc x) (+ acc x)) 0 xs))\n"
    ++ "(fn product xs (foldl (\\ (acc x) (* acc x)) 1 xs))\n"
    ++ "\n"
    ++ "(fn length xs (foldl (\\ (acc _) (+ acc 1)) 0 xs))\n"
    ++ "(fn reverse xs (foldl (\\ (acc x) (cons x acc)) () xs))\n"

end DynLisp
