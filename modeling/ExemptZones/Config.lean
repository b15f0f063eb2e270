import ExemptZones.Shape.Record

/-
The configuration: who may change the registry, which addresses it takes, and where it is kept.
-/

namespace ExemptZones

open Shape

def defaultAddressPrefix : String := "terra"

structure Config where
  authority : Text := ""
  /-- The readable part of every address. -/
  addressPrefix : String := defaultAddressPrefix
  dbPath : Text := "taxexempt.db"
  deriving DecidableEq, Repr

namespace Config

def title : String := "Config"

def ofValue : Reader Config :=
  record ["authority", "address_prefix", "db_path"] fun es =>
    (((fieldOr "authority" text (.plain "") es).both
      (fieldOr "address_prefix" nonEmptyText defaultAddressPrefix es)).both
      (fieldOr "db_path" text (.plain "taxexempt.db") es)).map fun ((a, p), d) => ⟨a, p, d⟩

def toValue (c : Config) : Value :=
  .object [("authority", .ofText c.authority), ("address_prefix", .text c.addressPrefix), ("db_path", .ofText c.dbPath)]

end Config

end ExemptZones
