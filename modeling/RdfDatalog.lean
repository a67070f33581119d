import RdfDatalog.Datalog.StratifierVerdict
import RdfDatalog.Sparql.PathRuns
import RdfDatalog.Endpoint.SparqlJsonDocument
import RdfDatalog.Ottr.BlankNodes
import RdfDatalog.Shacl.Termination
import RdfDatalog.Owl.Retraction
import RdfDatalog.Endpoint.Permissions
import RdfDatalog.Rml.Generation
import RdfDatalog.Endpoint.GuardedRuns
import RdfDatalog.Endpoint.BulkLoadMerge
import RdfDatalog.JsonLd.RoundTrip
import RdfDatalog.Datalog.Rollback
import RdfDatalog.Datalog.RetractionRounds
import RdfDatalog.Canon.Isomorphism
import RdfDatalog.Endpoint.TranslatedTerms
import RdfDatalog.Sparql.Homomorphisms
import RdfDatalog.Endpoint.TransactionReads
import RdfDatalog.Endpoint.Compaction
import RdfDatalog.Sparql.Casts
import RdfDatalog.Sparql.ArithmeticPanics
import RdfDatalog.Sparql.GeneratedNodes
import RdfDatalog.Sparql.SelectStar
import RdfDatalog.Sparql.CyclicBgp
import RdfDatalog.Endpoint.FormBody
import RdfDatalog.Eli.ConceptMatches
import RdfDatalog.Endpoint.SparqlJsonPanics
import RdfDatalog.Datalog.Unification
import RdfDatalog.Rml.ConstantFolding
import RdfDatalog.Rml.Templates
import RdfDatalog.Shacl.PathDenotation
import RdfDatalog.Vqs.ConfigQuery
import RdfDatalog.Vqs.IndexTable
