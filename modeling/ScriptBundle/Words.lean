import ScriptBundle.Failure

/-!
# The words of a command

A command is given as one text and split into words at blanks. Quotes and backslashes keep blanks
inside a word: between single quotes every code point stands for itself, between double quotes a
backslash protects a backslash or a double quote, and elsewhere a backslash protects what follows it.
-/

namespace ScriptBundle.Words

/-- Where in a word the reader stands. -/
inductive Place
  | plain
  | quoted (quote : CodePoint)
  /-- Behind a backslash, inside the given quotes if there are any. -/
  | escaped (within : Option CodePoint)

/-- A blank between two words. -/
def isBlank (c : CodePoint) : Bool := c = ' ' || c = '\t' || c = '\r' || c = '\n'

/-- Splits the rest of a command, of which `word` is the beginning of a word that has been read. -/
def splitFrom (place : Place) (word : Option Text) : Text → Except QuotingFault (List Text)
  | [] =>
    match place with
    | .plain => .ok word.toList
    | .quoted _ => .error .unclosedQuote
    | .escaped _ => .error .danglingBackslash
  | c :: s =>
    let begun := word.getD []
    match place with
    | .plain =>
      if isBlank c then (splitFrom .plain none s).map (word.toList ++ ·)
      else if c = '\\' then splitFrom (.escaped none) (some begun) s
      else if c = '\'' || c = '"' then splitFrom (.quoted c) (some begun) s
      else splitFrom .plain (some (begun ++ [c])) s
    | .quoted q =>
      if c = q then splitFrom .plain (some begun) s
      else if c = '\\' && q = '"' then splitFrom (.escaped (some q)) (some begun) s
      else splitFrom place (some (begun ++ [c])) s
    | .escaped none => splitFrom .plain (some (begun ++ [c])) s
    | .escaped (some q) =>
      let kept : Text := if c = '\\' || c = q then [c] else ['\\', c]
      splitFrom (.quoted q) (some (begun ++ kept)) s

/-- The words of a command. -/
def split (s : Text) : Except Failure (List Text) := (splitFrom .plain none s).mapError .quoting

end ScriptBundle.Words
