/-!
# The prelude

The part of the library that is written in the language itself. Every interpreter loads it unless it
is told otherwise, and a program may redefine what it defines.
-/

namespace TemplateLisp

/-- The lines of the prelude. -/
def preludeLines : List String := [
  ";; Core library loaded into every interpreter.",
  ";; Everything here is an ordinary root binding and can be redefined.",
  "",
  "(defn identity (x) x)",
  "",
  "(defn complement (f)",
  "  (fn (&rest args) (not (apply f args))))",
  "",
  "(defn remove (pred seq)",
  "  (filter (complement pred) seq))",
  "",
  "(defn every? (pred seq)",
  "  (let ((ok t))",
  "    (doseq (x seq)",
  "      (when (and ok (not (pred x)))",
  "        (setq ok false)))",
  "    ok))",
  "",
  "(defn some (pred seq)",
  "  (let ((found nil))",
  "    (doseq (x seq)",
  "      (unless found",
  "        (let ((v (pred x)))",
  "          (when v (setq found v)))))",
  "    found))",
  "",
  "(defn sum (seq)",
  "  (reduce + seq 0))"]

/-- The text of the prelude. -/
def prelude : String := String.join (preludeLines.map (· ++ "\n"))

end TemplateLisp
