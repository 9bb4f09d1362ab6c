import SchedulerEngine.RunInvariantProofs
import SchedulerEngine.ExecutionProofs
import SchedulerEngine.FileBasedProofs
import SchedulerEngine.LockStateProofs
import SchedulerEngine.LockLimitProofs
import SchedulerEngine.LockSubsystemProofs
import SchedulerEngine.LockAcquisitionProofs
import SchedulerEngine.LockWakeUpProofs
import SchedulerEngine.SkippedNodeProofs
import SchedulerEngine.OrderStepProofs
import SchedulerEngine.OrderClosedProofs
import SchedulerEngine.OrderTaskProofs
import SchedulerEngine.TypedCallRegisterProofs
import SchedulerEngine.ClusterIntegrityProofs
import SchedulerEngine.ClusterTakeOverProofs
import SchedulerEngine.ClusterCommandProofs
import SchedulerEngine.ClusterWatchdogProofs
import SchedulerEngine.JobMaxTasksProofs
import SchedulerEngine.JobWakeUpProofs
import SchedulerEngine.OrderReplacementProofs
import SchedulerEngine.LeftmostLeastProofs
import SchedulerEngine.KeySetProofs
import SchedulerEngine.SuccessiveNextProofs
import SchedulerEngine.SchedulerTimeProofs
import SchedulerEngine.SchedulePeriodProofs
import SchedulerEngine.ScheduleInlayProofs
import SchedulerEngine.ScheduleSearchProofs
import SchedulerEngine.HolidayShiftProofs
import SchedulerEngine.HolidayStartsProofs
import SchedulerEngine.AtInstantProofs
import SchedulerEngine.TimelineProofs
import SchedulerEngine.CoveringScheduleProofs
import SchedulerEngine.ActiveScheduleProofs
import SchedulerEngine.ScheduleUseProofs
import SchedulerEngine.AnyStartProofs
import SchedulerEngine.NextStartProofs
import SchedulerEngine.TaskToStartProofs
import SchedulerEngine.ProcessClassProofs
import SchedulerEngine.FileOrderSourceProofs
import SchedulerEngine.BlacklistedFilesProofs
import SchedulerEngine.IdempotenceProofs
import SchedulerEngine.ConnectorHandlerProofs
import SchedulerEngine.ConnectorProofs
import SchedulerEngine.GatheringProofs
import SchedulerEngine.RequisiteProofs
import SchedulerEngine.MissingRequisiteProofs
import SchedulerEngine.AnnouncementProofs
import SchedulerEngine.PredecessorsProofs
import SchedulerEngine.SkippedStatesProofs
import SchedulerEngine.OrderedMapProofs
import SchedulerEngine.ScheduleCoverProofs
import SchedulerEngine.DirectoryObserverProofs
import SchedulerEngine.HotFolderProofs
import SchedulerEngine.TypedFolderProofs
import SchedulerEngine.FileReplacementProofs
import SchedulerEngine.DirectoryConvergenceProofs
import SchedulerEngine.TimerQueueProofs
import SchedulerEngine.LengthHeaderProofs
import SchedulerEngine.TimerServiceProofs
import SchedulerEngine.HeartbeatAnswerProofs
import SchedulerEngine.HeartbeatTimerProofs
import SchedulerEngine.HttpResponseProofs
import SchedulerEngine.HttpParserProofs
import SchedulerEngine.HttpEmptyLineProofs
import SchedulerEngine.HttpCutsProofs
import SchedulerEngine.HtmlTokensProofs
import SchedulerEngine.HtmlLogProofs
import SchedulerEngine.HtmlReaderProofs
import SchedulerEngine.HtmlReaderRunProofs
import SchedulerEngine.LogReaderProofs
import SchedulerEngine.XmlEndFinderProofs
import SchedulerEngine.XmlEndFinderRunProofs
import SchedulerEngine.WireProofs
import SchedulerEngine.MinicomValuesProofs
import SchedulerEngine.ProxyRegisterProofs
import SchedulerEngine.VariantSerializerProofs
import SchedulerEngine.CallSerializerProofs
import SchedulerEngine.RemotingRunProofs
import SchedulerEngine.NamedForestProofs
import SchedulerEngine.DirectoryCloneProofs
import SchedulerEngine.DirectoryMergeProofs
import SchedulerEngine.LinkedMapProofs
import SchedulerEngine.FailableCollectionProofs
import SchedulerEngine.OrderRequestProofs
import SchedulerEngine.OrderCountProofs
import SchedulerEngine.OrderSetbackProofs
import SchedulerEngine.MultipleProofs
import SchedulerEngine.TimerRoundingProofs
import SchedulerEngine.RangeSetProofs
import SchedulerEngine.OldScheduleProofs
import SchedulerEngine.PathProofs
import SchedulerEngine.LineSplitProofs
import SchedulerEngine.LineSplitProofs
import SchedulerEngine.FileLoggerProofs
import SchedulerEngine.JavaLinesProofs
import SchedulerEngine.StdoutWellProofs
import SchedulerEngine.TaskHandlerProofs
import SchedulerEngine.ChainReplacementProofs
import SchedulerEngine.OrderCommandProofs
import SchedulerEngine.OrderRunProofs
import SchedulerEngine.Base64Proofs
import SchedulerEngine.NamedTreeProofs
import SchedulerEngine.ReplicationProofs
import SchedulerEngine.ReplicationUpdateProofs
import SchedulerEngine.ReplicationProgressProofs
import SchedulerEngine.ReplicationExchangeProofs
import SchedulerEngine.ReplicationRunProofs
