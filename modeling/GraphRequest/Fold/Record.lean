import GraphRequest.Fold.Entity

/-!
# Reporting entities as records

A record has the entity's fields first, then what the directives ask for, then one array of
records per child.  Its names come from three sources, the fields, the directives and the aliases
of the children, and nothing keeps them apart: of two values under one name the later one stays,
in the place of the earlier.
-/

namespace GraphRequest

/-- Inserts a value if there is one. -/
def Entries.insertSome {α : Type} (name : String) (value : Option α) (entries : Entries α) :
    Entries α :=
  match value with
  | none => entries
  | some value => entries.insert name value

/-- The part of a record that is the entity's own: its fields and what the directives ask for. -/
def Entity.ownRecord (entity : Entity) (pattern : Pattern) : Record :=
  let edges := if pattern.relationships then some (Json.array entity.edges) else none
  entity.fields
    |>.insertSome Directive.labels.word entity.labels
    |>.insertSome Directive.relationships.word edges
    |>.insertSome Directive.graph.word entity.graph

namespace Request

mutual

/-- The record of an entity of a node. -/
def record : Request → Entity → Record
  | ⟨pattern, children⟩, entity =>
    recordBelow children entity.branches (entity.ownRecord pattern)
termination_by structural request => request

/-- Adds to a record the arrays of the records below, each under the alias of the child. -/
def recordBelow : List Request → List Scope → Record → Record
  | child :: children, scope :: scopes, sofar =>
    let below := scope.map fun (_, entity) => Json.object (record child entity)
    recordBelow children scopes (sofar.insert child.pattern.name (.array below))
  | _, _, sofar => sofar
termination_by structural children => children

end

variable (request : Request)

/-- The records of the entities in a scope. -/
def records (scope : Scope) : List Record :=
  scope.map fun (_, entity) => request.record entity

/-- Reduces rows to the records of the root's entities, in the order in which the entities were
    met. -/
def reduce (rows : List Row) : List Record :=
  request.records (request.fold rows)

end Request

end GraphRequest
