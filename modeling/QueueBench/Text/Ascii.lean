/-!
# Letter case in ASCII

Header names, mode cells, axis names and file extensions are compared up to the case of
the letters `A` to `Z`; every other character stands for itself.
-/
namespace QueueBench.Text

def asciiLower (s : String) : String := String.ofList (s.toList.map Char.toLower)

def sameLetters (a b : String) : Bool := asciiLower a == asciiLower b

def occursIn (needle : List Char) : List Char → Bool
  | [] => needle.isEmpty
  | c :: cs => needle.isPrefixOf (c :: cs) || occursIn needle cs

end QueueBench.Text
