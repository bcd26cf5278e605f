/-!
Categories of failures. A category has more general ones above it, and whoever deals with a general
one deals with all that lie below.
-/

namespace Marginalia

inductive Category where
  | parseTimeout
  | parseFailure
  | grammarFailure
  | unsupportedLanguage
  | fileTooLarge
  | unreadableEntry
  | storeFailure
  | classifierFailure
  | commitLookupFailure
  | domainFailure
  | invalidInput
  | invalidValue
  | missingFile
  | systemFailure
  | positionOutOfRange
  | lookupFailure
  | wrongType
  | numberTooLarge
  | arithmeticFailure
  | failure
  | anything
  deriving DecidableEq, Repr

namespace Category

/-- The category and all above it, the nearest first. -/
def lineage : Category → List Category
  | parseTimeout => [parseTimeout, grammarFailure, domainFailure, failure, anything]
  | parseFailure => [parseFailure, grammarFailure, domainFailure, failure, anything]
  | grammarFailure => [grammarFailure, domainFailure, failure, anything]
  | unsupportedLanguage =>
    [unsupportedLanguage, domainFailure, invalidValue, failure, anything]
  | fileTooLarge => [fileTooLarge, domainFailure, failure, anything]
  | unreadableEntry => [unreadableEntry, domainFailure, systemFailure, failure, anything]
  | storeFailure => [storeFailure, domainFailure, failure, anything]
  | classifierFailure => [classifierFailure, domainFailure, failure, anything]
  | commitLookupFailure => [commitLookupFailure, domainFailure, failure, anything]
  | domainFailure => [domainFailure, failure, anything]
  | invalidInput => [invalidInput, invalidValue, failure, anything]
  | invalidValue => [invalidValue, failure, anything]
  | missingFile => [missingFile, systemFailure, failure, anything]
  | systemFailure => [systemFailure, failure, anything]
  | positionOutOfRange => [positionOutOfRange, lookupFailure, failure, anything]
  | lookupFailure => [lookupFailure, failure, anything]
  | wrongType => [wrongType, failure, anything]
  | numberTooLarge => [numberTooLarge, arithmeticFailure, failure, anything]
  | arithmeticFailure => [arithmeticFailure, failure, anything]
  | failure => [failure, anything]
  | anything => [anything]

/-- The category is `general` or lies below it. -/
def isA (c general : Category) : Bool := c.lineage.contains general

end Category

end Marginalia
