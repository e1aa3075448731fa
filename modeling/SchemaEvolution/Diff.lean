namespace SchemaEvolution

inductive DiffKind
  -- Protobuf
  | messageDeleted
  | fieldDeleted
  | fieldDeleteWithoutReservedNumber
  | fieldDeleteWithoutReservedName
  | jsonNameChanged
  | fieldLabelChanged
  | fieldKindChanged
  | fieldTypeChanged
  | enumDeleted
  | enumValueDeleted
  | enumValueDeleteWithoutReservedNumber
  | enumValueDeleteWithoutReservedName
  | enumValueNumberChanged
  | reservedRangeNotInclusive
  | reservedNameRemoved
  | syntaxChanged
  -- JSON Schema
  | schemaDeleted
  | subschemaTypeChanged
  | propertyAddition
  | requiredFieldChanged
  | enumCreation
  | enumDeletion
  | enumElementDeleted
  | refChanged
  | allOfModified
  | anyOfModified
  | oneOfModified
  | itemSchemaAdded
  | itemSchemaModified
  | itemSchemaDeleted
  | additionalItemsAdded
  | additionalItemsModified
  | additionalItemsDeleted
  | additionalPropertiesNotOpen
  -- Avro
  | avroIncompatible
  deriving DecidableEq, Repr

namespace DiffKind

def all : List DiffKind :=
  [.messageDeleted, .fieldDeleted, .fieldDeleteWithoutReservedNumber,
   .fieldDeleteWithoutReservedName, .jsonNameChanged, .fieldLabelChanged, .fieldKindChanged,
   .fieldTypeChanged, .enumDeleted, .enumValueDeleted, .enumValueDeleteWithoutReservedNumber,
   .enumValueDeleteWithoutReservedName, .enumValueNumberChanged, .reservedRangeNotInclusive,
   .reservedNameRemoved, .syntaxChanged, .schemaDeleted, .subschemaTypeChanged,
   .propertyAddition, .requiredFieldChanged, .enumCreation, .enumDeletion,
   .enumElementDeleted, .refChanged, .allOfModified, .anyOfModified, .oneOfModified,
   .itemSchemaAdded, .itemSchemaModified, .itemSchemaDeleted, .additionalItemsAdded,
   .additionalItemsModified, .additionalItemsDeleted, .additionalPropertiesNotOpen,
   .avroIncompatible]

def tag : DiffKind → String
  | .messageDeleted => "message-deleted"
  | .fieldDeleted => "field-deleted"
  | .fieldDeleteWithoutReservedNumber => "field-delete-without-reserved-number"
  | .fieldDeleteWithoutReservedName => "field-delete-without-reserved-name"
  | .jsonNameChanged => "json-name-changed"
  | .fieldLabelChanged => "field-label-changed"
  | .fieldKindChanged => "field-kind-changed"
  | .fieldTypeChanged => "field-type-changed"
  | .enumDeleted => "enum-deleted"
  | .enumValueDeleted => "enum-value-deleted"
  | .enumValueDeleteWithoutReservedNumber => "enum-value-delete-without-reserved-number"
  | .enumValueDeleteWithoutReservedName => "enum-value-delete-without-reserved-name"
  | .enumValueNumberChanged => "enum-value-number-changed"
  | .reservedRangeNotInclusive => "reserved-range-not-inclusive"
  | .reservedNameRemoved => "reserved-name-removed"
  | .syntaxChanged => "syntax-changed"
  | .schemaDeleted => "schema-deleted"
  | .subschemaTypeChanged => "subschema-type-changed"
  | .propertyAddition => "property-addition"
  | .requiredFieldChanged => "required-field-changed"
  | .enumCreation => "enum-creation"
  | .enumDeletion => "enum-deletion"
  | .enumElementDeleted => "enum-element-deleted"
  | .refChanged => "ref-changed"
  | .allOfModified => "all-of-modified"
  | .anyOfModified => "any-of-modified"
  | .oneOfModified => "one-of-modified"
  | .itemSchemaAdded => "item-schema-added"
  | .itemSchemaModified => "item-schema-modified"
  | .itemSchemaDeleted => "item-schema-deleted"
  | .additionalItemsAdded => "additional-items-added"
  | .additionalItemsModified => "additional-items-modified"
  | .additionalItemsDeleted => "additional-items-deleted"
  | .additionalPropertiesNotOpen => "additional-properties-not-open"
  | .avroIncompatible => "avro-incompatible"

def ofTag? (text : String) : Option DiffKind := all.find? (·.tag == text)

theorem mem_all (k : DiffKind) : k ∈ all := by cases k <;> decide

end DiffKind

structure Diff where
  kind : DiffKind
  location : String
  message : String
  deriving DecidableEq, Repr

def Diff.text (d : Diff) : String := d.location ++ ": " ++ d.message

end SchemaEvolution
