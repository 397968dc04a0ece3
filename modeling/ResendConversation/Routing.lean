import ResendConversation.JsString
import ResendConversation.Threading

/-! # Reply-To routing

`lib/email/routing.ts`: a conversation's Reply-To address carries its routing token as a
`+c_` tag of the local part, and an inbound recipient is decoded back to the token and the
base address it was built from. -/

namespace ResendConversation

open JsString

/-- The local part and the domain of a mailbox address. -/
structure MailboxParts where
  localPart : JsString
  domain : JsString
deriving DecidableEq

structure RoutingCandidate where
  routingToken : JsString
  baseAddress : JsString
deriving DecidableEq

def routingTagPrefix : JsString := js "c_"

def routingTokenLength : ℕ := 32

/-- `/^[0-9a-f]{32}$/`. -/
def isRoutingToken (token : JsString) : Bool :=
  token.length == routingTokenLength && token.all fun c => isDigit c || (97 ≤ c && c ≤ 102)

/-- The characters of a base local part. -/
def isLocalPartCharacter (c : UInt16) : Bool :=
  isLowerLetter c || isDigit c || (js ".!#$%&'*/=?^_\x60\x7b|\x7d~-").contains c

def isLabelCharacter (c : UInt16) : Bool := isLowerLetter c || isDigit c || c == 45

/-- `/^[a-z0-9](?:[a-z0-9-]*[a-z0-9])?$/`. -/
def isDomainLabel (label : JsString) : Bool :=
  label.all isLabelCharacter && label.head?.any (· != 45) && label.getLast?.any (· != 45)

/-- Two consecutive full stops. -/
def hasDoubleDot : JsString → Bool
  | a :: b :: s => (a == 46 && b == 46) || hasDoubleDot (b :: s)
  | _ => false

def parseBaseMailbox (toLowerCase : JsString → JsString) (address : JsString) :
    Option MailboxParts :=
  let normalized := toLowerCase (trim address)
  match lastIndexOf normalized [64] normalized.length with
  | none => none
  | some index =>
      let localPart := normalized.take index
      let domain := normalized.drop (index + 1)
      let generatedLocalLength :=
        localPart.length + 1 + routingTagPrefix.length + routingTokenLength
      let labels := split 46 domain
      if index = 0 ∨ domain.isEmpty ∨ normalized.contains 60 ∨ normalized.contains 62 ∨
          localPart.contains 43 then none
      else if ¬localPart.all isLocalPartCharacter ∨ localPart.head? = some 46 ∨
          localPart.getLast? = some 46 ∨ hasDoubleDot localPart ∨ generatedLocalLength > 64 ∨
          domain.length > 253 ∨ labels.length < 2 ∨
          (labels.any fun label => label.length > 63 || !isDomainLabel label) ∨
          generatedLocalLength + domain.length + 1 > 254 then none
      else some ⟨localPart, domain⟩

def isValidReplyToBaseAddress (toLowerCase : JsString → JsString) (address : JsString) : Bool :=
  (parseBaseMailbox toLowerCase address).isSome

/-- The Reply-To address of a conversation, or `none` where the source throws
'Invalid conversation Reply-To configuration'. -/
def buildConversationReplyTo (toLowerCase : JsString → JsString)
    (baseAddress routingToken : JsString) :
    Option JsString :=
  let token := toLowerCase (routingToken.filter (· != 45))
  match parseBaseMailbox toLowerCase baseAddress with
  | none => none
  | some base =>
      if isRoutingToken token then
        some (base.localPart ++ [43] ++ routingTagPrefix ++ token ++ [64] ++ base.domain)
      else none

/-- The hyphenated form of a token of 32 hexadecimal digits. -/
def hyphenate (token : JsString) : JsString :=
  join [45] [slice token 0 8, slice token 8 12, slice token 12 16, slice token 16 20,
    token.drop 20]

/-- The token and base address that one recipient address encodes. -/
def extractRoutingCandidate (toLowerCase : JsString → JsString) (rawAddress : JsString) :
    Option RoutingCandidate :=
  let address := toLowerCase (trim rawAddress)
  match lastIndexOf address [64] address.length with
  | none => none
  | some index =>
      match lastIndexOf address (43 :: routingTagPrefix) index with
      | none => none
      | some marker =>
          let token := slice address (marker + routingTagPrefix.length + 1) index
          let baseAddress := address.take marker ++ [64] ++ address.drop (index + 1)
          if index = 0 ∨ marker = 0 ∨ ¬isRoutingToken token ∨
              parseBaseMailbox toLowerCase baseAddress = none then none
          else some ⟨hyphenate token, baseAddress⟩

/-- The candidates of a recipient list, without repetition, in the order of first
occurrence. -/
def extractRoutingCandidates (toLowerCase : JsString → JsString) (addresses : List JsString) :
    List RoutingCandidate :=
  unique (addresses.filterMap (extractRoutingCandidate toLowerCase))

/-- The token that one recipient address carries for the base mailbox. -/
def extractRoutingToken (toLowerCase : JsString → JsString) (base : MailboxParts)
    (rawAddress : JsString) :
    Option JsString :=
  let tagged := base.localPart ++ [43] ++ routingTagPrefix
  let address := toLowerCase (trim rawAddress)
  match lastIndexOf address [64] address.length with
  | none => none
  | some index =>
      let localPart := address.take index
      let token := localPart.drop tagged.length
      if index = 0 ∨ address.drop (index + 1) ≠ base.domain ∨ ¬tagged.isPrefixOf localPart ∨
          ¬isRoutingToken token then none
      else some (hyphenate token)

/-- The tokens of a recipient list for a base address, or `none` where the source throws
'Invalid conversation Reply-To configuration'. -/
def extractRoutingTokens (toLowerCase : JsString → JsString) (addresses : List JsString)
    (baseAddress : JsString) : Option (List JsString) :=
  (parseBaseMailbox toLowerCase baseAddress).map fun base =>
    unique (addresses.filterMap (extractRoutingToken toLowerCase base))

end ResendConversation
