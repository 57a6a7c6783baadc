namespace Conform.Text

def isCapital (c : Char) : Bool := 'A' ≤ c && c ≤ 'Z'

def splitCapital (c : Char) : List Char :=
  if isCapital c then ['_', Char.ofNat (c.toNat + 32)] else [c]

def snakeChars : List Char → List Char
  | [] => []
  | c :: cs => c :: cs.flatMap splitCapital

def snakeCase (name : String) : String := String.ofList (snakeChars name.toList)

end Conform.Text
