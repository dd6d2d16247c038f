import CloudAccess.Main
import CloudAccess.Proofs.Decision.Basis
import CloudAccess.Proofs.Decision.Scans
import CloudAccess.Proofs.Decision.Meaning
import CloudAccess.Proofs.Decision.Undecided
import CloudAccess.Proofs.Graph.Documents
import CloudAccess.Proofs.Graph.Compilation
import CloudAccess.Proofs.Reach.Roles
import CloudAccess.Proofs.Reach.Routes
import CloudAccess.Proofs.Reach.Search
import CloudAccess.Proofs.Decision.Comparison
import CloudAccess.Proofs.Glob.Literal
import CloudAccess.Proofs.Glob.Earliest
import CloudAccess.Proofs.Glob.Composition
import CloudAccess.Proofs.Glob.Case
import CloudAccess.Proofs.Graph.Agreement
import CloudAccess.Proofs.Graph.Confinement
import CloudAccess.Proofs.Decision.Guardrails
import CloudAccess.Proofs.Graph.Hierarchy
import CloudAccess.Proofs.Reach.Exposure
import CloudAccess.Proofs.Decision.Growth
import CloudAccess.Proofs.Paired
import CloudAccess.Proofs.Decision.Nesting
import CloudAccess.Proofs.Graph.Appended
import CloudAccess.Proofs.Condition.Order
import CloudAccess.Proofs.Decision.Recast
import CloudAccess.Proofs.Decision.Narrowing
import CloudAccess.Proofs.Decision.Faults
import CloudAccess.Proofs.Graph.History
import CloudAccess.Proofs.Graph.Loose
import CloudAccess.Proofs.Graph.Escapes
import CloudAccess.Proofs.Inventory.Rereading
import CloudAccess.Proofs.Decision.Alone
import CloudAccess.Proofs.Graph.Frames
import CloudAccess.Proofs.Report.Public
import CloudAccess.Proofs.Reach.Sessions
import CloudAccess.Proofs.Graph.Coverage
import CloudAccess.Proofs.OrderedMap
import CloudAccess.Proofs.Graph.Readers
import CloudAccess.Proofs.WhatIf.Direction
import CloudAccess.Proofs.Outcomes
import CloudAccess.Proofs.Number.Rounding
import CloudAccess.Proofs.Number.Shortest
import CloudAccess.Proofs.Json.Numerals
import CloudAccess.Proofs.Json.Strings
import CloudAccess.Proofs.Json.Proper
import CloudAccess.Proofs.Json.Values
import CloudAccess.Proofs.Json.Plain
import CloudAccess.Proofs.Inventory.Saving
import CloudAccess.Proofs.Condition.Operators
import CloudAccess.Proofs.Condition.Proper
import CloudAccess.Proofs.Condition.Escapes
import CloudAccess.Proofs.Graph.Patternless
import CloudAccess.Proofs.Reach.Hops
import CloudAccess.Proofs.Sorting
import CloudAccess.Proofs.Reach.Rounds
import CloudAccess.Proofs.Reach.Assumption
import CloudAccess.Proofs.Policy.Spelling
import CloudAccess.Proofs.Inventory.Decoding
import CloudAccess.Proofs.Graph.Gains
import CloudAccess.Proofs.Policy.Governing
import CloudAccess.Proofs.WhatIf.Partition
