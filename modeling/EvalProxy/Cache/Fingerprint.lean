/-
# Fingerprints

A request is identified by the digest of its canonical text, so that the order of object members
does not matter.

Main definitions: `canonicalText`, `canonicalPretty`, `fingerprint`.
-/
import EvalProxy.Digest
import EvalProxy.Json.Print
namespace EvalProxy.Cache

/-- The compact text of a request in canonical form. -/
def canonicalText (body : Json) : String := body.canonical.compact

/-- The indented text of a request in canonical form. -/
def canonicalPretty (body : Json) : String := body.canonical.pretty

/-- The hexadecimal SHA-256 digest of the canonical text of a request. -/
def fingerprint (body : Json) : String := Digest.sha256Hex (Text.encode (canonicalText body))

end EvalProxy.Cache
