import DearSql.Text

/-! Catalog objects. -/
namespace DearSql

structure Column where
  name : Text
  type : Text := []
  defaultValue : Text := []
  comment : Text := []
  isPrimaryKey : Bool := false
  isNotNull : Bool := false
  isUnique : Bool := false
  isAutoIncrement : Bool := false
  deriving DecidableEq, Repr

structure Index where
  name : Text
  columns : List Text := []
  isUnique : Bool := false
  isPrimary : Bool := false
  type : Text := []
  deriving DecidableEq, Repr

structure ForeignKey where
  name : Text
  sourceColumn : Text := []
  targetTable : Text := []
  targetColumn : Text := []
  onDelete : Text := []
  onUpdate : Text := []
  deriving DecidableEq, Repr

structure Table where
  name : Text
  schema : Text := []
  comment : Text := []
  definition : Text := []
  fullName : Text := []
  columns : List Column := []
  indexes : List Index := []
  foreignKeys : List ForeignKey := []
  incomingForeignKeys : List ForeignKey := []
  sizeBytes : ℤ := -1
  deriving DecidableEq, Repr

/-- `Status`: whether it went well, and the error if not. -/
structure Status where
  ok : Bool := true
  error : Text := []
  deriving DecidableEq, Repr

end DearSql
