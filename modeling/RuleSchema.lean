import RuleSchema.Main
import RuleSchema.Config.Record
import RuleSchema.Proofs.Validation.Enforcement
import RuleSchema.Proofs.Session.History
import RuleSchema.Proofs.Admission.Layers
import RuleSchema.Proofs.Session.Sharing
import RuleSchema.Proofs.Schema.Frame
import RuleSchema.Proofs.Schema.Document
import RuleSchema.Proofs.Store.Encoding
import RuleSchema.Proofs.Store.Simulation
import RuleSchema.Proofs.Session.Persistence
import RuleSchema.Proofs.Session.Increments
import RuleSchema.Proofs.Session.Engines
import RuleSchema.Proofs.Validation.Fallback
import RuleSchema.Proofs.Store.Refinement
import RuleSchema.Proofs.Schema.Unfolding
import RuleSchema.Proofs.Schema.Expansion
import RuleSchema.Proofs.Validation.Absence
import RuleSchema.Proofs.Admission.Resolution
import RuleSchema.Proofs.Schema.RoundTrip
import RuleSchema.Proofs.Schema.Union
import RuleSchema.Proofs.Session.Failures
import RuleSchema.Proofs.Schema.Listing
import RuleSchema.Proofs.Admission.Suggestion
import RuleSchema.Proofs.Json.Numerals
import RuleSchema.Proofs.Json.Reading
import RuleSchema.Proofs.Admission.Log
import RuleSchema.Proofs.Schema.Lookup
import RuleSchema.Proofs.Session.Collection
import RuleSchema.Proofs.Session.Transcript
import RuleSchema.Proofs.Text.Words
import RuleSchema.Proofs.Rule.Reading
import RuleSchema.Proofs.Rule.Restatement
