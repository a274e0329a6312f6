import Recordset.Ini.Reader
import Recordset.Pattern.Reader
import Recordset.Policy.Config
import Recordset.Report
import Recordset.Samples.Users
import Recordset.Proofs.Deferred.Agreement
import Recordset.Proofs.Query.Reading
import Recordset.Proofs.Query.Testing
import Recordset.Proofs.Collection.Selection
import Recordset.Proofs.Ownership.Reachable
import Recordset.Proofs.Query.Normal
import Recordset.Proofs.Extension.Lookup
import Recordset.Proofs.Extension.Builtin
import Recordset.Proofs.Deferred.Cancellation
import Recordset.Proofs.Path.Removal
import Recordset.Proofs.Sorting.Order
import Recordset.Proofs.Sorting.Search
import Recordset.Proofs.Sorting.Run
import Recordset.Proofs.Sorting.Merge
import Recordset.Proofs.Sorting.Sort
import Recordset.Proofs.Number.Exact
import Recordset.Proofs.Sorting.Keys
import Recordset.Proofs.Collection.KeyOrder
import Recordset.Proofs.Query.Shorthand
import Recordset.Proofs.Collection.Conditions
import Recordset.Proofs.Made
import Recordset.Proofs.Equality
import Recordset.Proofs.Path.Alike
import Recordset.Proofs.Query.Equal
import Recordset.Proofs.Collection.Complement
import Recordset.Proofs.Collection.Keys
import Recordset.Proofs.Collection.Distinct
import Recordset.Proofs.Collection.Filing
import Recordset.Proofs.Collection.Grouping
import Recordset.Proofs.Collection.Paging
import Recordset.Proofs.Collection.Splicing
import Recordset.Proofs.Collection.AllOrNothing
import Recordset.Proofs.Collection.Updating
import Recordset.Proofs.Reaching
import Recordset.Proofs.Query.PlainData
import Recordset.Proofs.Collection.Merging
import Recordset.Proofs.Order
import Recordset.Proofs.Extreme
import Recordset.Proofs.Collection.Comparing
import Recordset.Proofs.Collection.Extremes
import Recordset.Proofs.Tree
import Recordset.Proofs.Query.Flags
import Recordset.Proofs.Collection.Comparators
import Recordset.Proofs.Collection.Summing
import Recordset.Proofs.Path.Route
import Recordset.Proofs.Path.Remainder
import Recordset.Proofs.Keyed
import Recordset.Proofs.Collection.Forgetting
import Recordset.Proofs.Configuration
import Recordset.Proofs.Collection.Snapshot
import Recordset.Proofs.Collection.Union
import Recordset.Proofs.Plain
import Recordset.Proofs.Deferred.Terminal
import Recordset.Proofs.Path.Joined
import Recordset.Proofs.PlainForm
import Recordset.Proofs.Sorting.Transfer
import Recordset.Proofs.Scope.Basic
import Recordset.Proofs.Scope.Agree
import Recordset.Proofs.Scope.Reading
import Recordset.Proofs.Scope.Comparing
import Recordset.Proofs.Scope.Showing
import Recordset.Proofs.Scope.Value
import Recordset.Proofs.Scope.Copying
import Recordset.Proofs.Scope.Query
import Recordset.Proofs.Scope.Collection
import Recordset.Proofs.Scope.Changing
import Recordset.Proofs.Scope.Presenting
import Recordset.Proofs.Scope.Deferred
import Recordset.Proofs.Scope.Session
import Recordset.Proofs.Scope.Given
import Recordset.Proofs.Deferred.Isolation
