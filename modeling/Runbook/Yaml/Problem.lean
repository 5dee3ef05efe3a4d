/-!
# What can be wrong with a document in YAML

`Problem` names the causes. All but the last eleven say that the text is no document; those say that a
scalar has a type that its text does not fit, or that the document cannot be taken in.
-/

namespace Runbook.Yaml

/-- Why a text is no document, or why a document has no value. -/
inductive Problem where
  | unprintableCharacter
  | strayCharacter
  | keyWithoutColon
  | entryNotAllowed
  | keyNotAllowed
  | valueNotAllowed
  | badDirective
  | badAnchor
  | badTag
  | badBlockHeader
  | badEscape
  | unclosedQuote
  | separatorInQuotes
  | incompatibleVersion
  | repeatedDirective
  | undefinedHandle
  | unexpectedToken
  | endOfTokens
  | furtherDocument
  | undefinedAlias
  | repeatedAnchor
  | wrongKind
  | undefinedTag
  | keyIsCollection
  | notMergeable
  | badBase64
  | noSuchCharacter
  | characterTooLarge
  | notNumeric
  | numberTooLarge
  | emptyNumber
  | notTruthValue
  | notMoment
  | momentNotText
  | noSuchMoment
  | endlessText
  | tooDeep
deriving DecidableEq, Repr

/-- Whether the text is no document, as opposed to a document that has no value. -/
def Problem.isMalformed : Problem → Bool
  | .noSuchCharacter => false
  | .characterTooLarge => false
  | .notNumeric => false
  | .numberTooLarge => false
  | .emptyNumber => false
  | .notTruthValue => false
  | .notMoment => false
  | .momentNotText => false
  | .noSuchMoment => false
  | .endlessText => false
  | .tooDeep => false
  | _ => true

end Runbook.Yaml
