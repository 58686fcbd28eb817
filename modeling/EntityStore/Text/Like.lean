namespace EntityStore.Text

/-- Whether the whole text matches the pattern. There is no escape character. -/
def like (same : Char → Char → Bool) : List Char → List Char → Bool
  | [], text => text.isEmpty
  | '%' :: pattern, text => anySuffix (like same pattern) text
  | '_' :: pattern, text =>
    match text with
    | [] => false
    | _ :: rest => like same pattern rest
  | c :: pattern, text =>
    match text with
    | [] => false
    | d :: rest => same c d && like same pattern rest
where
  /-- Whether some suffix of the text satisfies the test. -/
  anySuffix (p : List Char → Bool) : List Char → Bool
    | [] => p []
    | d :: rest => p (d :: rest) || anySuffix p rest

/-- Characters that are equal up to the case of ASCII letters. -/
def sameLetter (c d : Char) : Bool := c.toLower == d.toLower

end EntityStore.Text
