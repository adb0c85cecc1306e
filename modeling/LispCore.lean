import LispCore.Interpreter
import LispCore.Prelude
import LispCore.Proofs.Adequacy
import LispCore.Proofs.ArgumentOrder
import LispCore.Proofs.CallByNeed
import LispCore.Proofs.ChainShape
import LispCore.Proofs.CyclicMappings
import LispCore.Proofs.DepthBound
import LispCore.Proofs.EqualityLaws
import LispCore.Proofs.Facade
import LispCore.Proofs.FailureOrigin
import LispCore.Proofs.FirstOrder
import LispCore.Proofs.FlatRendering
import LispCore.Proofs.ForceLoop
import LispCore.Proofs.Forest
import LispCore.Proofs.Interleaving
import LispCore.Proofs.LazyEager
import LispCore.Proofs.Lifecycle
import LispCore.Proofs.LogLevel
import LispCore.Proofs.Memo
import LispCore.Proofs.Noninterference
import LispCore.Proofs.NumericSettings
import LispCore.Proofs.ParameterBinding
import LispCore.Proofs.Promises
import LispCore.Proofs.ProperLists
import LispCore.Proofs.RaisedErrors
import LispCore.Proofs.RecursionLimit
import LispCore.Proofs.Reports
import LispCore.Proofs.ResultChain
import LispCore.Proofs.SeparatePromises
import LispCore.Proofs.Shadowing
import LispCore.Proofs.StrictArity
import LispCore.Proofs.Unforced
import LispCore.Proofs.WriteFootprint
import LispCore.Value.Equality
