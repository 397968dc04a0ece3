import ResendConversation.JsString

/-! # Threading metadata

The header parsing of `lib/email/threading.ts`: Message-IDs of `In-Reply-To` and
`References`, header lookup, subject normalisation and mailbox parsing. -/

namespace ResendConversation

open JsString

/-- The scan behind `/<[^<>\s]+>/g`.  `pending` holds, in reverse, what follows the last
opening bracket while the match can still succeed. -/
def extractMessageIdsFrom : Option JsString → JsString → List JsString
  | _, [] => []
  | pending, c :: s =>
      if c == 60 then extractMessageIdsFrom (some []) s
      else
        match pending with
        | none => extractMessageIdsFrom none s
        | some id =>
            if c == 62 then
              if id.isEmpty then extractMessageIdsFrom none s
              else (60 :: id.reverse ++ [62]) :: extractMessageIdsFrom none s
            else if isSpace c then extractMessageIdsFrom none s
            else extractMessageIdsFrom (some (c :: id)) s

/-- The Message-IDs in a header value, in order. -/
def extractMessageIds (value : Option JsString) : List JsString :=
  extractMessageIdsFrom none (value.getD [])

/-- The value of the first header whose name agrees up to letter case. -/
def getHeader (toLowerCase : JsString → JsString) (headers : Option (List (JsString × JsString)))
    (name : JsString) : Option JsString :=
  ((headers.getD []).find? fun h => toLowerCase h.1 == toLowerCase name).map Prod.snd

/-- Strips `literal`, given in lower case, up to letter case. -/
def stripLiteral (literal s : JsString) : Option JsString :=
  let matched := (s.take literal.length).map fun c => if isUpperLetter c then c + 32 else c
  if matched == literal then some (s.drop literal.length) else none

/-- The rest of the string after `\s*:\s*`. -/
def stripColon (s : JsString) : Option JsString :=
  match trimStart s with
  | 58 :: rest => some (trimStart rest)
  | _ => none

/-- What `/^\s*(?:re|fw|fwd)\s*:\s*/i` leaves of a string that it matches. -/
def stripSubjectPrefix (s : JsString) : Option JsString :=
  let s := trimStart s
  ((stripLiteral (js "re") s).bind stripColon).or <|
    ((stripLiteral (js "fw") s).bind stripColon).or <|
      (stripLiteral (js "fwd") s).bind stripColon

/-- The loop of `normalizeSubject`; every round removes at least three characters, so the
length of the subject bounds the number of rounds. -/
def stripSubjectPrefixes : ℕ → JsString → JsString
  | 0, s => s
  | fuel + 1, s =>
      match stripSubjectPrefix s with
      | none => s
      | some rest => stripSubjectPrefixes fuel rest

def normalizeSubject (subject : JsString) : JsString :=
  let trimmed := trim subject
  let normalized := stripSubjectPrefixes trimmed.length trimmed
  if normalized.isEmpty then trimmed else normalized

def createReplySubject (subject : JsString) : JsString := js "Re: " ++ normalizeSubject subject

/-- `[...new Set(values)]`: the first occurrence of every value, in order. -/
def unique {α : Type} [DecidableEq α] (values : List α) : List α :=
  values.foldl (fun seen v => if v ∈ seen then seen else seen ++ [v]) []

def buildReferences (references : List JsString) (parentInternetMessageId : JsString) :
    List JsString :=
  unique (references ++ [parentInternetMessageId])

/-- A mailbox: an address with an optional display name. -/
structure Mailbox where
  address : JsString
  name : Option JsString
deriving DecidableEq

/-- Removes the quotation marks at both ends: `replace(/^"|"$/g, '')`. -/
def stripQuotes (s : JsString) : JsString :=
  let s := if s.head? == some 34 then s.tail else s
  if s.getLast? == some 34 then s.dropLast else s

/-- The mailbox in a `From` value.  `/^(.*?)\s*<([^<>]+)>$/` ties the opening bracket to the
last one of the value, and the name to a prefix without line terminators. -/
def parseAddress (value : JsString) : Mailbox :=
  let trimmed := trim value
  let plain : Mailbox := ⟨trimmed, none⟩
  if trimmed.getLast? == some 62 then
    let inner := trimmed.dropLast
    match lastIndexOf inner [60] inner.length with
    | none => plain
    | some i =>
        let name := trimEnd (inner.take i)
        let address := inner.drop (i + 1)
        if address.isEmpty || address.contains 62 || name.any isLineTerminator then plain
        else ⟨trim address, orNull (stripQuotes (trim name))⟩
  else plain

end ResendConversation
